/-
**The routes of a request.** `server/src/cursor/transport/registry.rs`.

A request id is served by a local transport, or a mark says that it runs upstream. A stream that attaches to a mark
keeps its generation, and clears the mark by it when it ends.

* `Placed`, `run_placed` — a mark's generation is its place among the marks since the id had none, and no more.
* `Sound`, `run_sound` — what holds of the times at which marks were read.
* `ownMarks_iff` — a stream clears no mark but its own, exactly when none ends while a later mark has its place.
-/

import Mathlib.Data.List.DropRight
import Mathlib.Data.List.Infix
import Mathlib.Tactic.Common

namespace Byok.Cursor.Transport

/-- `UPSTREAM_MARK_TTL`. Instants count nanoseconds. -/
def upstreamMarkTtl : Nat := 30 * 60 * 1000000000

/-- `UpstreamMark`. The code does not have the last field: which call of `mark_upstream` made the mark. -/
structure UpstreamMark where
  generation : Nat
  lastUsed : Nat
  made : Nat
deriving DecidableEq, Repr

/-- What a stream keeps of the mark that it attached to, and an append of the mark that it made. -/
structure Ticket where
  generation : Nat
  made : Nat
deriving DecidableEq, Repr

def UpstreamMark.ticket (mark : UpstreamMark) : Ticket := ⟨mark.generation, mark.made⟩

structure LocalTransport where
  generation : Nat
  accepting : Bool
deriving DecidableEq, Repr

/-- `RegistryInner` for one request id, with the tasks that go by it. `marks` and `reads` are not in the code: how often
`mark_upstream` was called, and which mark was read when. -/
structure RouteRegistry where
  transport : Option LocalTransport
  nextLocalGeneration : Nat
  mark : Option UpstreamMark
  now : Nat
  looking : Nat
  streams : List Ticket
  appends : List Ticket
  closing : List Nat
  marks : Nat
  reads : List (Nat × Nat)
deriving DecidableEq, Repr

/-- What is done with a registry. -/
inductive RouteAct where
  /-- Time passes. -/
  | wait (elapsed : Nat)
  /-- An append with a foreign model. -/
  | markUpstream
  /-- An append without a model. -/
  | upstream
  /-- The first half of a look of `wait_route`. -/
  | lookLocal
  /-- Its other half, after the first found nothing. -/
  | lookUpstream
  /-- A stream that attached calls `finish_upstream`. -/
  | finish (index : Nat)
  /-- An append whose request failed does. -/
  | fail (index : Nat)
  /-- `expire_stale_upstream`, which read the clock a while ago. -/
  | expire (late : Nat)
  /-- `get_or_create_for_append`. -/
  | append (replaceClosing : Bool)
  | stopAccepting
  /-- The task that waits for the end of a local transport. -/
  | closed (index : Nat)
deriving DecidableEq, Repr

namespace RouteRegistry

def new : RouteRegistry := ⟨none, 0, none, 0, 0, [], [], [], 0, []⟩

/-- A mark is used. -/
def touch (registry : RouteRegistry) (mark : UpstreamMark) : RouteRegistry :=
  { registry with
    mark := some { mark with lastUsed := registry.now }
    reads := (mark.made, registry.now) :: registry.reads }

def markUpstream (registry : RouteRegistry) : Nat × RouteRegistry :=
  let generation := match registry.mark with
    | none => 1
    | some mark => mark.generation + 1
  (generation, { registry with
    mark := some ⟨generation, registry.now, registry.marks + 1⟩
    transport := none
    appends := registry.appends ++ [⟨generation, registry.marks + 1⟩]
    marks := registry.marks + 1 })

def upstream (registry : RouteRegistry) : Bool × RouteRegistry :=
  match registry.mark with
  | some mark => (true, registry.touch mark)
  | none => (false, registry)

def expireStaleUpstreamAt (registry : RouteRegistry) (at_ : Nat) : Nat × RouteRegistry :=
  match registry.mark with
  | some mark => if upstreamMarkTtl ≤ at_ - mark.lastUsed then (1, { registry with mark := none }) else (0, registry)
  | none => (0, registry)

/-- The look of `wait_route` at the local transports. -/
def lookLocal (registry : RouteRegistry) : RouteRegistry :=
  if registry.transport.isSome then registry else { registry with looking := registry.looking + 1 }

/-- Its look at the marks: the stream that finds one attaches to it. -/
def lookUpstream (registry : RouteRegistry) : RouteRegistry :=
  if registry.looking = 0 then registry
  else
    let looked := { registry with looking := registry.looking - 1 }
    match registry.mark with
    | some mark => { looked.touch mark with streams := registry.streams ++ [mark.ticket] }
    | none => looked

def finishUpstream (registry : RouteRegistry) (generation : Nat) : RouteRegistry :=
  match registry.mark with
  | some mark => if mark.generation = generation then { registry with mark := none } else registry
  | none => registry

def getOrCreateForAppend (registry : RouteRegistry) (replaceClosing : Bool) : RouteRegistry :=
  if registry.transport.any fun transport => transport.accepting || !replaceClosing then registry
  else { registry with
    transport := some ⟨registry.nextLocalGeneration, true⟩
    nextLocalGeneration := registry.nextLocalGeneration + 1
    closing := registry.closing ++ [registry.nextLocalGeneration] }

/-- The end of a local transport. -/
def removeClosed (registry : RouteRegistry) (generation : Nat) : RouteRegistry :=
  if registry.transport.any fun transport => transport.generation = generation then
    { registry with transport := none }
  else registry

/-- One step. -/
def act (registry : RouteRegistry) : RouteAct → RouteRegistry
  | .wait elapsed => { registry with now := registry.now + elapsed }
  | .markUpstream => registry.markUpstream.2
  | .upstream => registry.upstream.2
  | .lookLocal => registry.lookLocal
  | .lookUpstream => registry.lookUpstream
  | .finish index =>
    match registry.streams[index]? with
    | some stream => { registry.finishUpstream stream.generation with streams := registry.streams.eraseIdx index }
    | none => registry
  | .fail index =>
    match registry.appends[index]? with
    | some append => { registry.finishUpstream append.generation with appends := registry.appends.eraseIdx index }
    | none => registry
  | .expire late => (registry.expireStaleUpstreamAt (registry.now - late)).2
  | .append replaceClosing => registry.getOrCreateForAppend replaceClosing
  | .stopAccepting =>
    { registry with transport := registry.transport.map fun transport => { transport with accepting := false } }
  | .closed index =>
    match registry.closing[index]? with
    | some generation => { registry.removeClosed generation with closing := registry.closing.eraseIdx index }
    | none => registry

/-- A run of a registry. -/
def run (acts : List RouteAct) : RouteRegistry := acts.foldl act new

theorem run_concat (acts : List RouteAct) (last : RouteAct) : run (acts ++ [last]) = (run acts).act last := by
  rw [run, List.foldl_append]
  rfl

/-! ### Places -/

/-- The calls of `mark_upstream` since the id last had no mark. -/
def streak (acts : List RouteAct) : Nat :=
  (acts.inits.rtakeWhile fun before => (run before).mark.isSome).countP fun before =>
    before.getLast? = some .markUpstream

/-- The acts up to a call of `mark_upstream`. -/
def upTo (made : Nat) (acts : List RouteAct) : Option (List RouteAct) :=
  acts.inits.find? fun before => before.count .markUpstream = made

/-- The place of the mark that this call made, among the calls since the id last had no mark. -/
def place (acts : List RouteAct) (made : Nat) : Nat := ((upTo made acts).map streak).getD 0

variable {acts : List RouteAct} {last : RouteAct}

theorem inits_concat : (acts ++ [last]).inits = acts.inits ++ [acts ++ [last]] := by
  rw [List.inits_append]
  rfl

theorem streak_concat (stored : (run (acts ++ [last])).mark.isSome) :
    streak (acts ++ [last]) = streak acts + if last = .markUpstream then 1 else 0 := by
  rw [streak, inits_concat, List.rtakeWhile_concat_pos (fun before => (run before).mark.isSome) _ _ stored, List.countP_append,
    List.countP_singleton,
    List.getLast?_concat, streak]
  simp only [Option.some.injEq, decide_eq_true_eq]

theorem streak_none (missing : (run acts).mark = none) : streak acts = 0 := by
  have stops : acts.inits.rtakeWhile (fun before => (run before).mark.isSome) = [] := by
    induction acts using List.reverseRecOn with
    | nil => rfl
    | append_singleton acts last =>
      rw [inits_concat, List.rtakeWhile_concat_neg]
      rw [missing]
      nofun
  rw [streak, stops, List.countP_nil]

theorem upTo_concat {made : Nat} {before : List RouteAct} (found : upTo made acts = some before) :
    upTo made (acts ++ [last]) = some before := by
  rw [upTo, inits_concat, List.find?_append, ← upTo, found, Option.some_or]

theorem upTo_last : upTo (acts.count .markUpstream + 1) (acts ++ [.markUpstream]) = some (acts ++ [.markUpstream]) := by
  have none : upTo (acts.count .markUpstream + 1) acts = none := by
    refine List.find?_eq_none.mpr fun before member => ?_
    have fewer := ((List.mem_inits _ _).mp member).sublist.count_le .markUpstream
    exact fun same => absurd (of_decide_eq_true same) (by omega)
  rw [upTo, inits_concat, List.find?_append, ← upTo, none, Option.none_or]
  simp

/-- The generation is the place of the mark. -/
def Places (acts : List RouteAct) (ticket : Ticket) : Prop :=
  ∃ before, upTo ticket.made acts = some before ∧ streak before = ticket.generation

theorem Places.place_eq {ticket : Ticket} (places : Places acts ticket) : place acts ticket.made = ticket.generation := by
  obtain ⟨before, found, same⟩ := places
  rw [place, found, Option.map_some, Option.getD_some, same]

/-- What holds of the marks and of the tickets. -/
structure Placed (acts : List RouteAct) (registry : RouteRegistry) : Prop where
  marks : registry.marks = acts.count .markUpstream
  latest : ∀ mark, registry.mark = some mark → mark.generation = streak acts
  mark : ∀ mark, registry.mark = some mark → Places acts mark.ticket
  tickets : ∀ stream ∈ registry.streams, Places acts stream

/-- What an act other than `mark_upstream` does to the marks and the tickets. -/
structure Leaves (registry after : RouteRegistry) : Prop where
  marks : after.marks = registry.marks
  mark : ∀ mark, after.mark = some mark → ∃ old, registry.mark = some old ∧ old.ticket = mark.ticket
  tickets : ∀ stream ∈ after.streams, stream ∈ registry.streams ∨ ∃ mark, registry.mark = some mark ∧ stream = mark.ticket

variable {registry : RouteRegistry}

theorem Leaves.same {after : RouteRegistry} (marks : after.marks = registry.marks) (mark : after.mark = registry.mark)
    (streams : after.streams ⊆ registry.streams) : Leaves registry after :=
  ⟨marks, fun kept same => ⟨kept, mark ▸ same, rfl⟩, fun _ member => .inl (streams member)⟩

theorem Leaves.unmark {streams : List Ticket} (fewer : streams ⊆ registry.streams) :
    Leaves registry { registry with mark := none, streams } :=
  ⟨rfl, nofun, fun _ member => .inl (fewer member)⟩

theorem leaves_finishUpstream (generation : Nat) {streams : List Ticket} (fewer : streams ⊆ registry.streams) :
    Leaves registry { registry.finishUpstream generation with streams } := by
  unfold finishUpstream
  split
  · split_ifs
    · exact .unmark fewer
    · exact .same rfl rfl fewer
  · exact .same rfl rfl fewer

theorem streams_finishUpstream (generation : Nat) : (registry.finishUpstream generation).streams = registry.streams := by
  unfold finishUpstream
  split
  · split_ifs <;> rfl
  · rfl

theorem leaves_touch {mark : UpstreamMark} (stored : registry.mark = some mark) : Leaves registry (registry.touch mark) :=
  ⟨rfl, fun _ same => ⟨mark, stored, Option.some.inj same ▸ rfl⟩, fun _ member => .inl member⟩

theorem leaves_lookUpstream : Leaves registry registry.lookUpstream := by
  unfold lookUpstream
  split_ifs
  · exact .same rfl rfl (List.Subset.refl _)
  · cases stored : registry.mark with
    | none => exact .same rfl stored.symm (List.Subset.refl _)
    | some mark =>
      refine ⟨rfl, (leaves_touch stored).mark, fun stream member => ?_⟩
      exact (List.mem_append.mp member).imp id fun last => ⟨mark, stored, List.mem_singleton.mp last⟩

/-- **Only `mark_upstream` makes a mark.** -/
theorem leaves_act (step : RouteAct) (other : step ≠ .markUpstream) : Leaves registry (registry.act step) := by
  have all : registry.streams ⊆ registry.streams := List.Subset.refl _
  cases step with
  | markUpstream => exact absurd rfl other
  | upstream =>
    show Leaves registry registry.upstream.2
    unfold RouteRegistry.upstream
    split
    · exact leaves_touch ‹_›
    · exact .same rfl rfl all
  | lookLocal =>
    show Leaves registry registry.lookLocal
    unfold RouteRegistry.lookLocal
    split_ifs <;> exact .same rfl rfl all
  | lookUpstream => exact leaves_lookUpstream
  | finish index =>
    unfold RouteRegistry.act
    dsimp only
    split
    · exact leaves_finishUpstream _ fun _ member => List.mem_of_mem_eraseIdx member
    · exact .same rfl rfl all
  | fail index =>
    unfold RouteRegistry.act
    dsimp only
    split
    · exact ⟨(leaves_finishUpstream _ all).marks, (leaves_finishUpstream _ all).mark,
        fun _ member => .inl (streams_finishUpstream _ ▸ member)⟩
    · exact .same rfl rfl all
  | expire late =>
    show Leaves registry (registry.expireStaleUpstreamAt _).2
    unfold expireStaleUpstreamAt
    split
    · split_ifs
      · exact .unmark all
      · exact .same rfl rfl all
    · exact .same rfl rfl all
  | append replaceClosing =>
    show Leaves registry (registry.getOrCreateForAppend replaceClosing)
    unfold getOrCreateForAppend
    split_ifs <;> exact .same rfl rfl all
  | closed index =>
    unfold RouteRegistry.act removeClosed
    dsimp only
    split
    · split_ifs <;> exact .same rfl rfl all
    · exact .same rfl rfl all
  | _ => exact .same rfl rfl all

theorem Places.concat {ticket : Ticket} (places : Places acts ticket) : Places (acts ++ [last]) ticket :=
  places.imp fun _ found => ⟨upTo_concat found.1, found.2⟩

theorem Placed.act (placed : Placed acts (run acts)) : Placed (acts ++ [last]) (run (acts ++ [last])) := by
  by_cases marks : last = .markUpstream
  · subst marks
    have stored : (run (acts ++ [.markUpstream])).mark.isSome := by rw [run_concat]; rfl
    have grown := streak_concat stored
    rw [if_pos rfl] at grown
    have generation : (run acts).markUpstream.1 = streak (acts ++ [.markUpstream]) := by
      rw [grown, markUpstream]
      cases before : (run acts).mark with
      | none => rw [streak_none before]
      | some mark => rw [← placed.latest mark before]
    rw [run_concat]
    constructor
    case marks => simp [RouteRegistry.act, markUpstream, placed.marks]
    case latest =>
      intro mark same
      obtain rfl := Option.some.inj same
      exact generation
    case mark =>
      intro mark same
      obtain rfl := Option.some.inj same
      refine ⟨acts ++ [.markUpstream], ?_, generation.symm⟩
      rw [← upTo_last, ← placed.marks]
      rfl
    case tickets => exact fun stream member => (placed.tickets stream member).concat
  · have leaves : Leaves (run acts) ((run acts).act last) := leaves_act last marks
    rw [← run_concat] at leaves
    constructor
    case marks =>
      have none : [last].count .markUpstream = 0 := List.count_eq_zero.mpr (by simpa using Ne.symm marks)
      rw [leaves.marks, placed.marks, List.count_append, none, Nat.add_zero]
    case latest =>
      intro mark kept
      obtain ⟨old, stored, same⟩ := leaves.mark mark kept
      rw [streak_concat (by rw [kept]; rfl), if_neg marks, Nat.add_zero, ← placed.latest old stored]
      exact (congrArg Ticket.generation same).symm
    case mark =>
      intro mark kept
      obtain ⟨old, stored, same⟩ := leaves.mark mark kept
      exact same ▸ (placed.mark old stored).concat
    case tickets =>
      intro stream member
      rcases leaves.tickets stream member with old | ⟨mark, stored, rfl⟩
      · exact (placed.tickets stream old).concat
      · exact (placed.mark mark stored).concat

/-- **A generation is a place**, in every run. -/
theorem run_placed (acts : List RouteAct) : Placed acts (run acts) := by
  induction acts using List.reverseRecOn with
  | nil => exact ⟨rfl, nofun, nofun, nofun⟩
  | append_singleton acts last ih => exact ih.act

/-! ### Times -/

/-- What holds of the times at which marks were read. -/
structure Sound (registry : RouteRegistry) : Prop where
  mark : ∀ mark, registry.mark = some mark → mark.made ≤ registry.marks
  reads : ∀ read ∈ registry.reads, read.1 ≤ registry.marks
  latest : ∀ mark, registry.mark = some mark → ∀ read ∈ registry.reads, read.1 = mark.made → read.2 ≤ mark.lastUsed
  past : ∀ read ∈ registry.reads, read.2 ≤ registry.now

namespace Sound

theorem unmark (sound : Sound registry) : Sound { registry with mark := none } where
  mark := nofun
  reads := sound.reads
  latest := nofun
  past := sound.past

theorem touch (sound : Sound registry) {mark : UpstreamMark} (stored : registry.mark = some mark) :
    Sound (registry.touch mark) where
  mark used same := by
    obtain rfl := Option.some.inj same
    exact sound.mark mark stored
  reads read member := by
    rcases List.mem_cons.mp member with rfl | before
    · exact sound.mark mark stored
    · exact sound.reads read before
  latest used same read member _ := by
    obtain rfl := Option.some.inj same
    rcases List.mem_cons.mp member with rfl | before
    · exact Nat.le_refl _
    · exact sound.past read before
  past read member := by
    rcases List.mem_cons.mp member with rfl | before
    · exact Nat.le_refl _
    · exact sound.past read before

theorem markUpstream (sound : Sound registry) : Sound registry.markUpstream.2 where
  mark used same := by
    obtain rfl := Option.some.inj same
    exact Nat.le_refl _
  reads read member := Nat.le_succ_of_le (sound.reads read member)
  latest used same read member made := by
    obtain rfl := Option.some.inj same
    exact absurd (made ▸ sound.reads read member) (Nat.not_succ_le_self _)
  past := sound.past

theorem finishUpstream (sound : Sound registry) (generation : Nat) : Sound (registry.finishUpstream generation) := by
  unfold RouteRegistry.finishUpstream
  split
  · split_ifs
    · exact sound.unmark
    · exact sound
  · exact sound

theorem expireStaleUpstreamAt (sound : Sound registry) (at_ : Nat) : Sound (registry.expireStaleUpstreamAt at_).2 := by
  unfold RouteRegistry.expireStaleUpstreamAt
  split
  · split_ifs
    · exact sound.unmark
    · exact sound
  · exact sound

theorem lookUpstream (sound : Sound registry) : Sound registry.lookUpstream := by
  unfold RouteRegistry.lookUpstream
  split_ifs
  · exact sound
  · cases stored : registry.mark with
    | none => exact ⟨nofun, sound.reads, nofun, sound.past⟩
    | some mark =>
      have touched := sound.touch stored
      exact ⟨touched.mark, touched.reads, touched.latest, touched.past⟩

theorem getOrCreateForAppend (sound : Sound registry) (replaceClosing : Bool) :
    Sound (registry.getOrCreateForAppend replaceClosing) := by
  unfold RouteRegistry.getOrCreateForAppend
  split_ifs
  · exact sound
  · exact ⟨sound.mark, sound.reads, sound.latest, sound.past⟩

theorem removeClosed (sound : Sound registry) (generation : Nat) : Sound (registry.removeClosed generation) := by
  unfold RouteRegistry.removeClosed
  split_ifs
  · exact ⟨sound.mark, sound.reads, sound.latest, sound.past⟩
  · exact sound

/-- **What a step keeps.** -/
theorem act (sound : Sound registry) (step : RouteAct) : Sound (registry.act step) := by
  cases step with
  | wait elapsed =>
    exact ⟨sound.mark, sound.reads, sound.latest, fun read member => Nat.le_add_right_of_le (sound.past read member)⟩
  | markUpstream => exact sound.markUpstream
  | upstream =>
    show Sound registry.upstream.2
    unfold RouteRegistry.upstream
    split
    · exact sound.touch ‹_›
    · exact sound
  | lookLocal =>
    show Sound registry.lookLocal
    unfold RouteRegistry.lookLocal
    split_ifs
    · exact sound
    · exact ⟨sound.mark, sound.reads, sound.latest, sound.past⟩
  | lookUpstream => exact sound.lookUpstream
  | finish index =>
    unfold RouteRegistry.act
    dsimp only
    split
    · have finished := sound.finishUpstream (Ticket.generation ‹_›)
      exact ⟨finished.mark, finished.reads, finished.latest, finished.past⟩
    · exact sound
  | fail index =>
    unfold RouteRegistry.act
    dsimp only
    split
    · have finished := sound.finishUpstream (Ticket.generation ‹_›)
      exact ⟨finished.mark, finished.reads, finished.latest, finished.past⟩
    · exact sound
  | expire late => exact sound.expireStaleUpstreamAt _
  | append replaceClosing => exact sound.getOrCreateForAppend replaceClosing
  | stopAccepting => exact ⟨sound.mark, sound.reads, sound.latest, sound.past⟩
  | closed index =>
    unfold RouteRegistry.act
    dsimp only
    split
    · have removed := sound.removeClosed ‹_›
      exact ⟨removed.mark, removed.reads, removed.latest, removed.past⟩
    · exact sound

end Sound

theorem run_sound (acts : List RouteAct) : Sound (run acts) := by
  induction acts using List.reverseRecOn with
  | nil => exact ⟨nofun, nofun, nofun, nofun⟩
  | append_singleton acts last ih =>
    rw [run_concat]
    exact ih.act last

/-! ### Own marks -/

/-- What is said of a run: a stream that ends removes no mark that was made after its own, and a mark that was read
lately is not dropped. -/
structure OwnMarks (acts : List RouteAct) : Prop where
  finish : ∀ before index after, acts = before ++ .finish index :: after → ∀ stream mark,
    (run before).streams[index]? = some stream → (run before).mark = some mark →
      ((run before).act (.finish index)).mark = none → mark.made ≤ stream.made
  expire : ∀ before late after, acts = before ++ .expire late :: after → ∀ mark, (run before).mark = some mark →
    ∀ read ∈ (run before).reads, read.1 = mark.made → (run before).now - read.2 < upstreamMarkTtl →
      ((run before).act (.expire late)).mark = some mark

/-- No stream ends while a later mark has the place of its own. -/
def EndsInTime (acts : List RouteAct) : Prop :=
  ∀ before index after, acts = before ++ .finish index :: after → ∀ stream mark,
    (run before).streams[index]? = some stream → (run before).mark = some mark →
      stream.made < mark.made → place before mark.made ≠ place before stream.made

theorem finish_removes_iff {index : Nat} {stream : Ticket} {mark : UpstreamMark}
    (ends : (run acts).streams[index]? = some stream) (stored : (run acts).mark = some mark) :
    ((run acts).act (.finish index)).mark = none ↔ place acts mark.made = place acts stream.made := by
  have placed := run_placed acts
  have own : place acts stream.made = stream.generation := (placed.tickets stream (List.mem_of_getElem? ends)).place_eq
  have other : place acts mark.made = mark.generation := (placed.mark mark stored).place_eq
  have act : ((run acts).act (.finish index)).mark = ((run acts).finishUpstream stream.generation).mark := by
    simp only [RouteRegistry.act, ends]
  rw [act, finishUpstream, stored, own, other]
  dsimp only
  split_ifs with same
  · exact iff_of_true rfl same
  · exact iff_of_false (by simp [stored]) same

theorem expire_keeps (sound : Sound registry) (late : Nat) {mark : UpstreamMark}
    (stored : registry.mark = some mark) {read : Nat × Nat} (member : read ∈ registry.reads)
    (made : read.1 = mark.made) (recent : registry.now - read.2 < upstreamMarkTtl) :
    (registry.act (.expire late)).mark = some mark := by
  have used := sound.latest mark stored read member made
  have fresh : ¬ upstreamMarkTtl ≤ registry.now - late - mark.lastUsed := by omega
  show (registry.expireStaleUpstreamAt (registry.now - late)).2.mark = some mark
  simp only [expireStaleUpstreamAt, stored, if_neg fresh]

/-- **The routes of a request.** Marks that are in use never expire; and a stream clears no mark that came after its
own, exactly when none ends while such a mark has its place. -/
theorem ownMarks_iff (acts : List RouteAct) : OwnMarks acts ↔ EndsInTime acts := by
  constructor
  · intro own before index after split stream mark ends stored later same
    have removed := (finish_removes_iff ends stored).mpr same
    exact absurd (own.finish before index after split stream mark ends stored removed) (Nat.not_le_of_lt later)
  · intro inTime
    refine ⟨fun before index after split stream mark ends stored removed => ?_,
      fun before late after _ mark stored read member made recent => ?_⟩
    · by_contra later
      have same := (finish_removes_iff ends stored).mp removed
      exact inTime before index after split stream mark ends stored (Nat.lt_of_not_le later) same
    · exact expire_keeps (run_sound before) late stored member made recent

/-- Two streams attach to a mark. The first clears it, the id is marked again, and the second clears that mark. -/
theorem late_stream_clears : ¬ ∀ acts, OwnMarks acts := by
  intro always
  let before : List RouteAct :=
    [.markUpstream, .lookLocal, .lookUpstream, .lookLocal, .lookUpstream, .finish 0, .markUpstream]
  have own := (always (before ++ [.finish 0])).finish before 0 [] rfl ⟨1, 1⟩ ⟨1, 0, 2⟩ rfl rfl rfl
  exact absurd own (by decide)

end RouteRegistry

end Byok.Cursor.Transport
