/-
**How a source file is cut into chunks.** `crates/semble-core/src/chunk/`.

A file whose language has a parser is cut along its syntax tree, any other one along its lines, and neighbours are merged
up to the desired size.

* `splitNode` — the recursion over the tree, with the loop that groups siblings.
* `mergeAdjacent`, `lineBoundaries` — the second merge, and the cut along lines.
* `chunkSource` — the chunks, with their lines.
-/

import Byok.Library.Spans
import Byok.Library.Utf8
import Byok.Model.Message

namespace Byok.Semble

open Library List

/-- `ChunkBoundary`. `stop` is the field `end`. -/
abbrev ChunkBoundary := Span

/-- A node of a syntax tree: `start_byte`, `end_byte` and the children. -/
inductive Node where
  | mk (startByte endByte : Nat) (children : List Node)

namespace Node

def startByte : Node → Nat
  | mk startByte _ _ => startByte

def endByte : Node → Nat
  | mk _ endByte _ => endByte

def children : Node → List Node
  | mk _ _ children => children

/-- The bytes of the node. -/
def boundary (node : Node) : ChunkBoundary := ⟨node.startByte, node.endByte⟩

end Node

def maxDepth : Nat := 500

def minChunkBytes : Nat := 50

mutual

def splitNode (desired : Nat) : Node → Nat → List ChunkBoundary
  | .mk startByte endByte children, depth =>
    if children.isEmpty ∨ maxDepth < depth ∨ endByte - startByte < minChunkBytes then [⟨startByte, endByte⟩]
    else splitChildren desired depth none children

/-- The loop of `split_node` over the children; `group` is what the inner loop has put together. -/
def splitChildren (desired depth : Nat) : Option ChunkBoundary → List Node → List ChunkBoundary
  | group, [] => group.toList
  | group, child :: rest =>
    match group.filter fun group => child.endByte - group.start ≤ desired with
    | some group => splitChildren desired depth (some ⟨group.start, child.endByte⟩) rest
    | none =>
      group.toList ++
        if desired < child.endByte - child.startByte then
          splitNode desired child (depth + 1) ++ splitChildren desired depth none rest
        else splitChildren desired depth (some child.boundary) rest

end

def mergeAdjacent (desired : Nat) : List ChunkBoundary → List ChunkBoundary
  | [] => []
  | current :: rest => Span.merge desired current rest

/-- `split_inclusive('\n')`. -/
def splitInclusive : List Char → List (List Char)
  | [] => []
  | character :: rest =>
    if character = '\n' then [character] :: splitInclusive rest
    else
      match splitInclusive rest with
      | [] => [[character]]
      | line :: lines => (character :: line) :: lines

/-- The ranges of the lines, from an offset on. -/
def lineRanges (offset : Nat) : List (List Char) → List ChunkBoundary
  | [] => []
  | line :: lines => ⟨offset, offset + Utf8.size line⟩ :: lineRanges (offset + Utf8.size line) lines

def lineBoundaries (source : String) (desired : Nat) : List ChunkBoundary :=
  if trim source = "" then [] else mergeAdjacent desired (lineRanges 0 (splitInclusive source.toList))

structure Chunk where
  filePath : String
  startLine : Nat
  endLine : Nat
  language : Option String
  content : String
deriving DecidableEq, Repr

/-- `str::get` of a range. -/
def slice (text : List Char) (range : ChunkBoundary) : Option (List Char) :=
  if range.start ≤ range.stop ∧ Utf8.isBoundary text range.start ∧ Utf8.isBoundary text range.stop then
    some (Utf8.takeBytes (Utf8.dropBytes text range.start) (range.stop - range.start))
  else none

/-- The chunk of a range. -/
def chunkAt (source filePath : String) (language : Option String) (boundary : ChunkBoundary) : Option Chunk :=
  (slice source.toList boundary).map fun content =>
    let startLine := (Utf8.takeBytes source.toList boundary.start).count '\n' + 1
    { filePath, startLine, language
      endLine := startLine + ((splitInclusive content).length - 1)
      content := String.ofList content }

/-- The boundaries of `chunk_source`. `parse` is `parser_for` of the language with the parser's `parse`. -/
def chunkBoundaries (parse : String → String → Option Node) (source : String) (language : Option String) (desired : Nat) :
    List ChunkBoundary :=
  let parsed := (language.bind fun language => parse language source).map fun root =>
    mergeAdjacent desired (splitNode desired root 0)
  (parsed.filter (· ≠ [])).getD (lineBoundaries source desired)

def chunkSource (parse : String → String → Option Node) (source filePath : String) (language : Option String)
    (desired : Nat) : List Chunk :=
  if trim source = "" then []
  else (chunkBoundaries parse source language desired).filterMap (chunkAt source filePath language)

/-! ### Trees -/

/-- A tree over a text: the children lie in their parent one after the other. -/
inductive Node.Fits : Node → Prop
  | mk {startByte endByte : Nat} {children : List Node} (proper : startByte ≤ endByte)
      (within : Span.Within startByte (children.map Node.boundary) endByte) (each : ∀ child ∈ children, child.Fits) :
      Fits (.mk startByte endByte children)

/-- A node of the tree, and its depth below the root. -/
inductive Node.Below : Node → Nat → Node → Prop
  | root (node : Node) : Below node 0 node
  | child {node child below : Node} {depth : Nat} (listed : child ∈ node.children) (deeper : child.Below depth below) :
      Below node (depth + 1) below

/-- A node that `split_node` does not divide: a leaf, over the depth limit, or below the minimum size. -/
def Node.Undivided (node : Node) (depth : Nat) : Prop :=
  node.children = [] ∨ maxDepth < depth ∨ node.endByte - node.startByte < minChunkBytes

/-- The byte is in a leaf of the tree. -/
def Node.InLeaf (root : Node) (offset : Nat) : Prop :=
  ∃ depth leaf, root.Below depth leaf ∧ leaf.children = [] ∧ leaf.boundary.Holds offset

/-- The boundary is an undivided node of the tree, whose root is at a depth. -/
def Node.Whole (root : Node) (depth : Nat) (boundary : ChunkBoundary) : Prop :=
  ∃ below node, root.Below below node ∧ node.boundary = boundary ∧ node.Undivided (depth + below)

section Tree

variable {desired : Nat}

theorem Node.Fits.within {node : Node} (fits : node.Fits) :
    Span.Within node.startByte (node.children.map Node.boundary) node.endByte := by
  cases fits with
  | mk _ within _ => exact within

theorem Node.Fits.proper {node : Node} (fits : node.Fits) : node.startByte ≤ node.endByte := by
  cases fits with
  | mk proper _ _ => exact proper

theorem Node.Fits.inside {root node : Node} {depth : Nat} (fits : root.Fits) (below : root.Below depth node) :
    root.startByte ≤ node.startByte ∧ node.endByte ≤ root.endByte := by
  induction below with
  | root => exact ⟨Nat.le_refl _, Nat.le_refl _⟩
  | child listed _ ih =>
    cases fits with
    | mk _ within each =>
      obtain ⟨front, -, back⟩ := within.inside (mem_map_of_mem listed)
      obtain ⟨front', back'⟩ := ih (each _ listed)
      exact ⟨Nat.le_trans front front', Nat.le_trans back' back⟩

theorem Node.Fits.holds {root : Node} {offset : Nat} (fits : root.Fits) (inLeaf : root.InLeaf offset) :
    root.boundary.Holds offset := by
  obtain ⟨depth, leaf, below, -, first, last⟩ := inLeaf
  obtain ⟨front, back⟩ := fits.inside below
  exact ⟨Nat.le_trans front first, Nat.lt_of_lt_of_le last back⟩

/-- The boundaries between two offsets that come out of a tree, or of its children. -/
structure Cut (desired low high : Nat) (leaves : Nat → Prop) (whole : ChunkBoundary → Prop)
    (boundaries : List ChunkBoundary) : Prop where
  within : Span.Within low boundaries high
  covers : ∀ offset, leaves offset → Span.Covers boundaries offset
  whole : ∀ boundary ∈ boundaries, desired < boundary.size → whole boundary

theorem cut_undivided {node : Node} {depth : Nat} (fits : node.Fits) (undivided : node.Undivided depth) :
    Cut desired node.startByte node.endByte node.InLeaf (node.Whole depth) [node.boundary] where
  within := ⟨Nat.le_refl _, fits.proper, Nat.le_refl _⟩
  covers := fun _ inLeaf => ⟨_, mem_singleton_self _, fits.holds inLeaf⟩
  whole := by
    intro boundary listed _
    rw [mem_singleton.mp listed]
    exact ⟨0, node, .root node, rfl, undivided⟩

theorem Cut.parent {node : Node} {depth : Nat} {boundaries : List ChunkBoundary} (divided : node.children ≠ [])
    (cut : Cut desired node.startByte node.endByte (fun offset => ∃ child ∈ node.children, child.InLeaf offset)
      (fun boundary => ∃ child ∈ node.children, child.Whole (depth + 1) boundary) boundaries) :
    Cut desired node.startByte node.endByte node.InLeaf (node.Whole depth) boundaries where
  within := cut.within
  covers := by
    rintro offset ⟨_, leaf, below, none, holds⟩
    cases below with
    | root => exact absurd none divided
    | child listed deeper => exact cut.covers offset ⟨_, listed, _, leaf, deeper, none, holds⟩
  whole := by
    intro boundary listed long
    obtain ⟨child, member, below, node, deeper, same, undivided⟩ := cut.whole boundary listed long
    refine ⟨below + 1, node, .child member deeper, same, ?_⟩
    rwa [Nat.add_right_comm] at undivided

/-- What the loop over the children keeps: everything that is still to come is between two offsets, and the group is
not over the desired size. -/
structure Looping (desired low high : Nat) (group : Option ChunkBoundary) (children : List Node) : Prop where
  within : Span.Within low (group.toList ++ children.map Node.boundary) high
  fits : ∀ child ∈ children, child.Fits
  short : ∀ boundary ∈ group, boundary.size ≤ desired

/-- What comes out of the loop over the children. -/
def Looped (desired low high depth : Nat) (group : Option ChunkBoundary) (children : List Node) :
    List ChunkBoundary → Prop :=
  Cut desired low high (fun offset => Span.Covers group.toList offset ∨ ∃ child ∈ children, child.InLeaf offset)
    (fun boundary => ∃ child ∈ children, child.Whole (depth + 1) boundary)

section Loop

variable {low high depth : Nat} {group : Option ChunkBoundary} {child : Node} {rest : List Node} {boundaries : List ChunkBoundary}

theorem Looping.join {boundary : ChunkBoundary} (looping : Looping desired low high (some boundary) (child :: rest))
    (short : child.endByte - boundary.start ≤ desired) :
    Looping desired low high (some ⟨boundary.start, child.endByte⟩) rest := by
  obtain ⟨⟨front, proper, between, child_proper, behind⟩, fits, -⟩ := looping
  refine ⟨⟨front, ?_, behind⟩, fun child listed => fits child (mem_cons_of_mem _ listed), fun _ joined => ?_⟩
  · show boundary.start ≤ child.endByte
    have child_proper : child.startByte ≤ child.endByte := child_proper
    have between : boundary.stop ≤ child.startByte := between
    omega
  · cases joined
    exact short

theorem Looped.join {boundary : ChunkBoundary} (looping : Looping desired low high (some boundary) (child :: rest))
    (looped : Looped desired low high depth (some ⟨boundary.start, child.endByte⟩) rest boundaries) :
    Looped desired low high depth (some boundary) (child :: rest) boundaries := by
  obtain ⟨⟨front, proper, between, child_proper, behind⟩, fits, -⟩ := looping
  have child_proper : child.startByte ≤ child.endByte := child_proper
  have between : boundary.stop ≤ child.startByte := between
  refine ⟨looped.within, fun offset inside => looped.covers offset ?_, fun boundary listed long => ?_⟩
  · rcases inside with ⟨_, same, first, last⟩ | ⟨leafy, listed, inLeaf⟩
    · cases mem_singleton.mp same
      exact .inl ⟨_, mem_singleton_self _, first, show offset < child.endByte by omega⟩
    · rcases mem_cons.mp listed with rfl | later
      · obtain ⟨first, last⟩ := (fits _ mem_cons_self).holds inLeaf
        have first : leafy.startByte ≤ offset := first
        exact .inl ⟨_, mem_singleton_self _, show boundary.start ≤ offset by omega, last⟩
      · exact .inr ⟨leafy, later, inLeaf⟩
  · obtain ⟨whole, listed, found⟩ := looped.whole boundary listed long
    exact ⟨whole, mem_cons_of_mem _ listed, found⟩

theorem Looped.close (looping : Looping desired low high group (child :: rest))
    (behind : ∀ low, Looping desired low high none (child :: rest) →
      Looped desired low high depth none (child :: rest) boundaries) :
    Looped desired low high depth group (child :: rest) (group.toList ++ boundaries) := by
  cases group with
  | none => exact behind low looping
  | some boundary =>
    obtain ⟨⟨front, proper, within⟩, fits, short⟩ := looping
    have looped := behind boundary.stop ⟨within, fits, fun _ none => by cases none⟩
    refine ⟨⟨front, proper, looped.within⟩, fun offset inside => ?_, fun other listed long => ?_⟩
    · rw [Span.covers_append]
      rcases inside with here | later
      · exact .inl here
      · exact .inr (looped.covers offset (.inr later))
    · rcases mem_cons.mp listed with rfl | listed
      · exact absurd long (Nat.not_lt.mpr (short _ rfl))
      · exact looped.whole other listed long

theorem Looped.divide {first : List ChunkBoundary} (looping : Looping desired low high none (child :: rest))
    (cut : Cut desired child.startByte child.endByte child.InLeaf (child.Whole (depth + 1)) first)
    (looped : Looped desired child.endByte high depth none rest boundaries) :
    Looped desired low high depth none (child :: rest) (first ++ boundaries) := by
  obtain ⟨⟨front, -, -⟩, -, -⟩ := looping
  refine ⟨(cut.within.widen front (Nat.le_refl _)).append looped.within, fun offset inside => ?_, fun other listed long => ?_⟩
  · rw [Span.covers_append]
    rcases inside with ⟨_, none, -⟩ | ⟨leafy, listed, inLeaf⟩
    · cases none
    · rcases mem_cons.mp listed with rfl | later
      · exact .inl (cut.covers offset inLeaf)
      · exact .inr (looped.covers offset (.inr ⟨leafy, later, inLeaf⟩))
  · rcases mem_append.mp listed with here | later
    · exact ⟨child, mem_cons_self, cut.whole other here long⟩
    · obtain ⟨whole, listed, found⟩ := looped.whole other later long
      exact ⟨whole, mem_cons_of_mem _ listed, found⟩

theorem Looped.begin (looping : Looping desired low high none (child :: rest))
    (looped : Looped desired low high depth (some child.boundary) rest boundaries) :
    Looped desired low high depth none (child :: rest) boundaries := by
  refine ⟨looped.within, fun offset inside => looped.covers offset ?_, fun other listed long => ?_⟩
  · rcases inside with ⟨_, none, -⟩ | ⟨leafy, listed, inLeaf⟩
    · cases none
    · rcases mem_cons.mp listed with rfl | later
      · exact .inl ⟨_, mem_singleton_self _, (looping.fits _ mem_cons_self).holds inLeaf⟩
      · exact .inr ⟨leafy, later, inLeaf⟩
  · obtain ⟨whole, listed, found⟩ := looped.whole other listed long
    exact ⟨whole, mem_cons_of_mem _ listed, found⟩

end Loop

mutual

theorem cut_splitNode : ∀ (node : Node) (depth : Nat), node.Fits →
    Cut desired node.startByte node.endByte node.InLeaf (node.Whole depth) (splitNode desired node depth)
  | .mk startByte endByte children, depth, fits => by
    unfold splitNode
    split
    · rename_i undivided
      refine cut_undivided fits ?_
      rcases undivided with none | deep | small
      · exact .inl (isEmpty_iff.mp none)
      · exact .inr (.inl deep)
      · exact .inr (.inr small)
    · rename_i divided
      have looped := cut_splitChildren children depth startByte endByte none
        ⟨fits.within, by cases fits with | mk _ _ each => exact each, fun _ none => by cases none⟩
      refine Cut.parent (fun none => divided (.inl (isEmpty_iff.mpr none))) ⟨looped.within, ?_, looped.whole⟩
      exact fun offset inLeaf => looped.covers offset (.inr inLeaf)

theorem cut_splitChildren : ∀ (children : List Node) (depth low high : Nat) (group : Option ChunkBoundary),
    Looping desired low high group children →
      Looped desired low high depth group children (splitChildren desired depth group children)
  | [], depth, low, high, group, looping => by
    unfold splitChildren
    refine ⟨by simpa using looping.within, ?_, ?_⟩
    · rintro offset (covered | ⟨child, listed, -⟩)
      · exact covered
      · cases listed
    · intro boundary listed long
      exact absurd long (Nat.not_lt.mpr (looping.short boundary (by simpa using listed)))
  | child :: rest, depth, low, high, group, looping => by
    have later : ∀ child ∈ rest, child.Fits := fun child listed => looping.fits child (mem_cons_of_mem _ listed)
    unfold splitChildren
    split
    · rename_i joined kept
      obtain ⟨rfl, short⟩ := Option.filter_eq_some_iff.mp kept
      exact Looped.join looping (cut_splitChildren rest depth low high _ (looping.join (by simpa using short)))
    · refine Looped.close looping fun low looping => ?_
      split
      · have cut := cut_splitNode child (depth + 1) (looping.fits child mem_cons_self)
        have behind := cut_splitChildren rest depth child.endByte high none
          ⟨looping.within.2.2, later, fun _ none => by cases none⟩
        exact Looped.divide looping cut behind
      · rename_i short
        refine Looped.begin looping (cut_splitChildren rest depth low high _ ⟨looping.within, later, fun _ first => ?_⟩)
        cases first
        exact Nat.not_lt.mp short

end

/-! #### The ends of the boundaries -/

variable {good : Nat → Prop}

/-- Both ends of the span are good. -/
def EndsIn (good : Nat → Prop) (boundary : ChunkBoundary) : Prop := good boundary.start ∧ good boundary.stop

/-- The ends of every node of the tree are good. -/
def Node.EndsIn (good : Nat → Prop) (root : Node) : Prop :=
  ∀ depth node, root.Below depth node → Semble.EndsIn good node.boundary

mutual

theorem ends_splitNode : ∀ (node : Node) (depth : Nat), node.EndsIn good →
    ∀ boundary ∈ splitNode desired node depth, EndsIn good boundary
  | .mk startByte endByte children, depth, ends => by
    unfold splitNode
    split
    · intro boundary listed
      rw [mem_singleton.mp listed]
      exact ends 0 _ (.root _)
    · exact ends_splitChildren children depth none (fun child listed _ node below => ends _ node (.child listed below))
        fun _ none => by cases none

theorem ends_splitChildren : ∀ (children : List Node) (depth : Nat) (group : Option ChunkBoundary),
    (∀ child ∈ children, child.EndsIn good) → (∀ boundary ∈ group, EndsIn good boundary) →
      ∀ boundary ∈ splitChildren desired depth group children, EndsIn good boundary
  | [], depth, group, _, grouped => by
    intro boundary listed
    unfold splitChildren at listed
    exact grouped boundary (by simpa using listed)
  | child :: rest, depth, group, ends, grouped => by
    have later : ∀ child ∈ rest, child.EndsIn good := fun child listed => ends child (mem_cons_of_mem _ listed)
    have here := ends child mem_cons_self
    unfold splitChildren
    split
    · rename_i joined kept
      obtain ⟨rfl, -⟩ := Option.filter_eq_some_iff.mp kept
      refine ends_splitChildren rest depth _ later fun boundary joins => ?_
      cases joins
      exact ⟨(grouped _ rfl).1, (here 0 child (.root child)).2⟩
    · intro boundary listed
      rcases mem_append.mp listed with closed | listed
      · exact grouped boundary (by simpa using closed)
      · split at listed
        · rcases mem_append.mp listed with inside | listed
          · exact ends_splitNode child (depth + 1) here boundary inside
          · exact ends_splitChildren rest depth none later (fun _ none => by cases none) boundary listed
        · refine ends_splitChildren rest depth _ later (fun boundary begins => ?_) boundary listed
          cases begins
          exact here 0 child (.root child)

end

end Tree

/-! ### Merging and partitions -/

/-- The boundaries are in order and disjoint, every byte that is to be covered is in one, and one that is over the desired
size is `whole`. -/
structure Partitions (desired : Nat) (covered : Nat → Prop) (whole : ChunkBoundary → Prop)
    (boundaries : List ChunkBoundary) : Prop where
  ordered : boundaries.Pairwise fun first second => first.stop ≤ second.start
  proper : ∀ boundary ∈ boundaries, boundary.start ≤ boundary.stop
  covers : ∀ offset, covered offset → ∃ boundary ∈ boundaries, boundary.Holds offset
  whole : ∀ boundary ∈ boundaries, desired < boundary.stop - boundary.start → whole boundary

section Merging

variable {desired low high : Nat} {leaves : Nat → Prop} {whole : ChunkBoundary → Prop} {boundaries : List ChunkBoundary}

theorem Cut.merge (cut : Cut desired low high leaves whole boundaries) :
    Cut desired low high leaves whole (mergeAdjacent desired boundaries) := by
  cases boundaries with
  | nil => exact cut
  | cons current rest =>
    refine ⟨Span.merge_within cut.within, fun offset inside => ?_, fun boundary listed long => ?_⟩
    · exact Span.merge_holds cut.within (cut.covers offset inside)
    · exact cut.whole boundary (Span.merge_long listed long) long

theorem Cut.partitions (cut : Cut desired low high leaves whole boundaries) : Partitions desired leaves whole boundaries where
  ordered := cut.within.pairwise
  proper := fun _ listed => (cut.within.inside listed).2.1
  covers := cut.covers
  whole := cut.whole

theorem ends_mergeAdjacent {good : Nat → Prop} (ends : ∀ boundary ∈ boundaries, EndsIn good boundary) :
    ∀ boundary ∈ mergeAdjacent desired boundaries, EndsIn good boundary := by
  cases boundaries with
  | nil => exact ends
  | cons current rest => exact Span.merge_ends ends

end Merging

/-! ### Lines -/

section Lines

variable {desired : Nat} {text : List Char}

theorem splitInclusive_first (solid : text ≠ []) : ∃ line rest, text = line ++ rest ∧ line ≠ [] ∧ '\n' ∉ line.dropLast ∧
    (rest = [] ∨ line.getLast? = some '\n') ∧ splitInclusive text = line :: splitInclusive rest := by
  induction text with
  | nil => exact absurd rfl solid
  | cons character rest ih =>
    rw [splitInclusive]
    split
    · rename_i newline
      exact ⟨[character], rest, rfl, cons_ne_nil _ _, not_mem_nil, .inr (by rw [newline]; rfl), rfl⟩
    · rename_i other
      cases rest with
      | nil => exact ⟨[character], [], rfl, cons_ne_nil _ _, not_mem_nil, .inl rfl, rfl⟩
      | cons next rest =>
        obtain ⟨line, behind, parts, full, inside, ends, split⟩ := ih (cons_ne_nil _ _)
        rw [split]
        refine ⟨character :: line, behind, by rw [parts]; rfl, cons_ne_nil _ _, ?_, ?_, rfl⟩
        · rw [dropLast_cons_of_ne_nil full, mem_cons]
          rintro (same | listed)
          · exact other same.symm
          · exact inside listed
        · rcases ends with none | ends
          · exact .inl none
          · refine .inr ?_
            rw [getLast?_cons, ends]
            rfl

/-- The bytes of one line of a text, with its line break if it has one. -/
def SingleLine (text : List Char) (boundary : ChunkBoundary) : Prop :=
  ∃ before line after, text = before ++ line ++ after ∧ boundary = ⟨Utf8.size before, Utf8.size before + Utf8.size line⟩ ∧
    '\n' ∉ line.dropLast ∧ (before = [] ∨ before.getLast? = some '\n') ∧ (after = [] ∨ line.getLast? = some '\n')

theorem cut_lineRanges (before : List Char) (begins : before = [] ∨ before.getLast? = some '\n') :
    Cut desired (Utf8.size before) (Utf8.size (before ++ text))
      (fun offset => Utf8.size before ≤ offset ∧ offset < Utf8.size (before ++ text)) (SingleLine (before ++ text))
      (lineRanges (Utf8.size before) (splitInclusive text)) := by
  induction length : text.length using Nat.strong_induction_on generalizing text before with
  | _ length' ih =>
    cases text with
    | nil =>
      rw [append_nil]
      exact ⟨Nat.le_refl _, fun _ inside => absurd inside.2 (Nat.not_lt.mpr inside.1), fun _ listed => by cases listed⟩
    | cons character rest =>
      obtain ⟨line, behind, parts, full, inside, ends, split⟩ := splitInclusive_first (cons_ne_nil character rest)
      have shorter : behind.length < length' := by
        have positive := length_pos_of_ne_nil full
        have total := congrArg List.length parts
        rw [length, length_append] at total
        omega
      have cut : behind = [] ∨ (before ++ line).getLast? = some '\n' := by
        refine ends.imp_right fun last => ?_
        rw [getLast?_append, last]
        rfl
      rw [split, lineRanges, parts, ← Utf8.size_append]
      have whole : SingleLine (before ++ (line ++ behind)) ⟨Utf8.size before, Utf8.size (before ++ line)⟩ :=
        ⟨before, line, behind, (append_assoc ..).symm, by rw [Utf8.size_append], inside, begins, ends⟩
      have front : Utf8.size before ≤ Utf8.size (before ++ line) := by
        rw [Utf8.size_append]
        exact Nat.le_add_right _ _
      have later : Cut desired (Utf8.size (before ++ line)) (Utf8.size (before ++ (line ++ behind)))
          (fun offset => Utf8.size (before ++ line) ≤ offset ∧ offset < Utf8.size (before ++ (line ++ behind)))
          (SingleLine (before ++ (line ++ behind))) (lineRanges (Utf8.size (before ++ line)) (splitInclusive behind)) := by
        rw [← append_assoc]
        rcases cut with none | last
        · subst none
          rw [append_nil]
          exact ⟨Nat.le_refl _, fun _ inside => absurd inside.2 (Nat.not_lt.mpr inside.1), fun _ listed => by cases listed⟩
        · exact ih behind.length shorter (before ++ line) (.inr last) rfl
      refine ⟨⟨Nat.le_refl _, front, later.within⟩, fun offset between => ?_, fun boundary listed long => ?_⟩
      · rw [Span.covers_cons]
        by_cases here : offset < Utf8.size (before ++ line)
        · exact .inl ⟨between.1, here⟩
        · exact .inr (later.covers offset ⟨Nat.not_lt.mp here, between.2⟩)
      · rcases mem_cons.mp listed with rfl | listed
        · exact whole
        · exact later.whole boundary listed long

theorem length_splitInclusive (solid : text ≠ []) : (splitInclusive text).length = text.dropLast.count '\n' + 1 := by
  induction length : text.length using Nat.strong_induction_on generalizing text with
  | _ length' ih =>
    obtain ⟨line, behind, parts, full, inside, ends, split⟩ := splitInclusive_first solid
    rw [split, length_cons, parts]
    rcases eq_nil_or_concat behind with rfl | ⟨front, last, concat⟩
    · rw [append_nil, count_eq_zero_of_not_mem inside]
      rfl
    · have more : behind ≠ [] := by simp [concat]
      have shorter : behind.length < length' := by
        have positive := length_pos_of_ne_nil full
        have total := congrArg List.length parts
        rw [length, length_append] at total
        omega
      have broken : line.count '\n' = 1 := by
        obtain ⟨start, rfl⟩ := getLast?_eq_some_iff.mp (ends.resolve_left more)
        rw [dropLast_concat] at inside
        rw [count_append, count_eq_zero_of_not_mem inside]
        rfl
      rw [ih behind.length shorter more rfl, dropLast_append_of_ne_nil more, count_append, broken]
      omega

/-! ### Chunks -/

/-- The number of the line that a character is on. -/
def lineOf (text : List Char) (index : Nat) : Nat := (text.take index).count '\n' + 1

theorem slice_eq_some {range : ChunkBoundary} {content : List Char} : slice text range = some content ↔
    ∃ before after, text = before ++ content ++ after ∧ range.start = Utf8.size before ∧
      range.stop = Utf8.size before + Utf8.size content := by
  unfold slice
  constructor
  · intro sliced
    rw [Option.ite_none_right_eq_some] at sliced
    obtain ⟨⟨proper, front, back⟩, content_eq⟩ := sliced
    obtain ⟨before, rest, parts, sized⟩ := Utf8.isBoundary_iff.mp front
    obtain ⟨upTo, after, parts', sized'⟩ := Utf8.isBoundary_iff.mp back
    cases content_eq
    rcases append_eq_append_iff.mp (parts.symm.trans parts') with ⟨middle, upTo_eq, rest_eq⟩ | ⟨middle, before_eq, after_eq⟩
    · have middle_size : range.stop - range.start = Utf8.size middle := by
        rw [← sized, ← sized', upTo_eq, Utf8.size_append, Nat.add_sub_cancel_left]
      refine ⟨before, after, ?_, sized.symm, ?_⟩
      · rw [parts, ← sized, Utf8.dropBytes_size, sized, middle_size, rest_eq, Utf8.takeBytes_size, append_assoc]
      · rw [parts, ← sized, Utf8.dropBytes_size, sized, middle_size, rest_eq, Utf8.takeBytes_size, ← sized', upTo_eq,
          Utf8.size_append, sized]
    · -- the slice is empty
      have none : Utf8.size middle = 0 := by
        have whole := congrArg Utf8.size before_eq
        rw [Utf8.size_append] at whole
        omega
      have empty : middle = [] := by
        have short := Utf8.length_le_size middle
        rw [none, Nat.le_zero, length_eq_zero_iff] at short
        exact short
      have same : range.stop - range.start = 0 := by
        rw [← sized, ← sized', before_eq, empty, append_nil, Nat.sub_self]
      have take : Utf8.takeBytes (Utf8.dropBytes text range.start) 0 = [] := by
        cases Utf8.dropBytes text range.start <;> rfl
      rw [same, take]
      refine ⟨before, rest, ?_, sized.symm, ?_⟩
      · rw [parts, append_nil]
      · rw [← sized', before_eq, empty, append_nil]
        rfl
  · rintro ⟨before, after, rfl, start, stop⟩
    have front : Utf8.isBoundary (before ++ content ++ after) range.start = true := by
      rw [start, append_assoc]
      exact Utf8.isBoundary_size before _
    have back : Utf8.isBoundary (before ++ content ++ after) range.stop = true := by
      rw [stop, ← Utf8.size_append]
      exact Utf8.isBoundary_size _ after
    rw [if_pos ⟨by omega, front, back⟩, start, stop, Nat.add_sub_cancel_left, append_assoc, Utf8.dropBytes_size,
      Utf8.takeBytes_size]

/-- The chunk is what is between the ends of its boundary, and its lines are those of the first and the last character
there. -/
def Chunk.Placed (source : String) (boundary : ChunkBoundary) (chunk : Chunk) : Prop :=
  ∃ before after, source.toList = before ++ chunk.content.toList ++ after ∧ boundary.start = Utf8.size before ∧
    boundary.stop = Utf8.size before + Utf8.size chunk.content.toList ∧
    chunk.startLine = lineOf source.toList before.length ∧
    (chunk.content ≠ "" → chunk.endLine = lineOf source.toList (before.length + (chunk.content.toList.length - 1)))

theorem chunkAt_placed {source filePath : String} {language : Option String} {boundary : ChunkBoundary} {chunk : Chunk}
    (made : chunkAt source filePath language boundary = some chunk) : chunk.Placed source boundary := by
  obtain ⟨content, sliced, rfl⟩ := Option.map_eq_some_iff.mp made
  obtain ⟨before, after, parts, start, stop⟩ := slice_eq_some.mp sliced
  have first : Utf8.takeBytes source.toList boundary.start = before := by
    rw [parts, start, append_assoc, Utf8.takeBytes_size]
  refine ⟨before, after, ?_, start, ?_, ?_, fun solid => ?_⟩
  · rw [String.toList_ofList]
    exact parts
  · rw [String.toList_ofList]
    exact stop
  · show (Utf8.takeBytes source.toList boundary.start).count '\n' + 1 = _
    rw [first, lineOf, parts, append_assoc, take_left]
  · have full : content ≠ [] := by
      rintro rfl
      exact solid rfl
    show (Utf8.takeBytes source.toList boundary.start).count '\n' + 1 + ((splitInclusive content).length - 1) = _
    have last : (before ++ content ++ after).take (before.length + (content.length - 1)) = before ++ content.dropLast := by
      rw [append_assoc, take_length_add_append, take_append_of_le_length (Nat.sub_le _ _),
        dropLast_eq_take]
    rw [first, length_splitInclusive full, String.toList_ofList, lineOf, parts, last, count_append]
    omega

theorem flatten_splitInclusive (text : List Char) : (splitInclusive text).flatten = text := by
  induction text with
  | nil => rfl
  | cons character rest ih =>
    rw [splitInclusive]
    split
    · rw [flatten_cons, ih]
      rfl
    · split
      · rename_i none
        rw [none] at ih
        rw [← ih]
        rfl
      · rename_i line lines some
        rw [some, flatten_cons] at ih
        rw [flatten_cons, ← ih]
        rfl

theorem ends_lineRanges (before : List Char) (lines : List (List Char)) :
    ∀ boundary ∈ lineRanges (Utf8.size before) lines,
      EndsIn (fun offset => Utf8.isBoundary (before ++ lines.flatten) offset = true) boundary := by
  induction lines generalizing before with
  | nil => exact fun _ none => by cases none
  | cons line lines ih =>
    intro boundary listed
    rw [lineRanges, ← Utf8.size_append] at listed
    rw [flatten_cons, ← append_assoc]
    rcases mem_cons.mp listed with rfl | listed
    · refine ⟨?_, Utf8.isBoundary_size (before ++ line) _⟩
      show Utf8.isBoundary _ (Utf8.size before) = true
      rw [append_assoc]
      exact Utf8.isBoundary_size before _
    · exact ih (before ++ line) boundary listed

theorem lineBoundaries_partitions {source : String} (solid : trim source ≠ "") :
    Partitions desired (· < Utf8.size source.toList) (SingleLine source.toList) (lineBoundaries source desired) := by
  rw [lineBoundaries, if_neg solid]
  have partitions := (@cut_lineRanges desired source.toList [] (.inl rfl)).merge.partitions
  exact ⟨partitions.ordered, partitions.proper, fun offset inside => partitions.covers offset ⟨Nat.zero_le _, inside⟩,
    partitions.whole⟩

theorem ends_chunkBoundaries {parse : String → String → Option Node} {source : String} {language : Option String}
    (between : ∀ root ∈ language.bind fun language => parse language source,
      root.EndsIn fun offset => Utf8.isBoundary source.toList offset = true) :
    ∀ boundary ∈ chunkBoundaries parse source language desired,
      EndsIn (fun offset => Utf8.isBoundary source.toList offset = true) boundary := by
  have lines : ∀ boundary ∈ lineBoundaries source desired,
      EndsIn (fun offset => Utf8.isBoundary source.toList offset = true) boundary := by
    unfold lineBoundaries
    split
    · exact fun _ none => by cases none
    · refine ends_mergeAdjacent ?_
      have ends := ends_lineRanges [] (splitInclusive source.toList)
      rwa [nil_append, flatten_splitInclusive] at ends
  unfold chunkBoundaries
  simp only
  cases found : language.bind fun language => parse language source with
  | none => exact lines
  | some root =>
    rw [Option.map_some]
    by_cases empty : mergeAdjacent desired (splitNode desired root 0) = []
    · rw [Option.filter_some, if_neg (by simpa using empty)]
      exact lines
    · rw [Option.filter_some, if_pos (by simpa using empty)]
      exact ends_mergeAdjacent (ends_splitNode root 0 (between root found))

theorem chunks_of_ends {source filePath : String} {language : Option String} {boundaries : List ChunkBoundary}
    (proper : ∀ boundary ∈ boundaries, boundary.start ≤ boundary.stop)
    (ends : ∀ boundary ∈ boundaries, EndsIn (fun offset => Utf8.isBoundary source.toList offset = true) boundary) :
    List.Forall₂ (fun boundary (chunk : Chunk) => slice source.toList boundary = some chunk.content.toList ∧
      chunk.Placed source boundary) boundaries (boundaries.filterMap (chunkAt source filePath language)) := by
  induction boundaries with
  | nil => exact .nil
  | cons boundary rest ih =>
    have sliced : slice source.toList boundary =
        some (Utf8.takeBytes (Utf8.dropBytes source.toList boundary.start) (boundary.stop - boundary.start)) :=
      if_pos ⟨proper _ mem_cons_self, ends _ mem_cons_self⟩
    have later := ih (fun other listed => proper other (mem_cons_of_mem _ listed))
      fun other listed => ends other (mem_cons_of_mem _ listed)
    cases made : chunkAt source filePath language boundary with
    | none =>
      rw [chunkAt, sliced] at made
      cases made
    | some chunk =>
      rw [filterMap_cons, made]
      refine .cons ⟨?_, chunkAt_placed made⟩ later
      obtain ⟨content, there, rfl⟩ := Option.map_eq_some_iff.mp made
      rw [there, String.toList_ofList]

end Lines

/-! ### Chunking -/

/-- **Chunking partitions a file.** Along the tree, every byte of a leaf is in a boundary; along the lines, every byte of a
file that is not blank is. A boundary over the desired size is one node that is not divided, or one line. A chunk is at its
lines, and boundaries between characters give a chunk each. -/
theorem chunk_partitions (desired : Nat) :
    (∀ root : Node, root.Fits →
      Partitions desired root.InLeaf (root.Whole 0) (mergeAdjacent desired (splitNode desired root 0))) ∧
    (∀ source : String, trim source ≠ "" →
      Partitions desired (· < Utf8.size source.toList) (SingleLine source.toList) (lineBoundaries source desired)) ∧
    (∀ source : String, trim source = "" → lineBoundaries source desired = []) ∧
    ∀ (parse : String → String → Option Node) (source filePath : String) (language : Option String),
      (∀ chunk ∈ chunkSource parse source filePath language desired,
        ∃ boundary ∈ chunkBoundaries parse source language desired, chunk.Placed source boundary) ∧
      (trim source ≠ "" →
        (∀ root ∈ language.bind fun language => parse language source,
          root.Fits ∧ root.EndsIn fun offset => Utf8.isBoundary source.toList offset = true) →
        List.Forall₂ (fun boundary (chunk : Chunk) => slice source.toList boundary = some chunk.content.toList ∧
          chunk.Placed source boundary)
          (chunkBoundaries parse source language desired) (chunkSource parse source filePath language desired)) := by
  have trees : ∀ root : Node, root.Fits →
      Partitions desired root.InLeaf (root.Whole 0) (mergeAdjacent desired (splitNode desired root 0)) :=
    fun root fits => (cut_splitNode root 0 fits).merge.partitions
  refine ⟨trees, fun source solid => lineBoundaries_partitions solid, fun source blank => if_pos blank, ?_⟩
  refine fun parse source filePath language => ⟨fun chunk listed => ?_, fun solid between => ?_⟩
  · unfold chunkSource at listed
    split at listed
    · cases listed
    · obtain ⟨boundary, there, made⟩ := mem_filterMap.mp listed
      exact ⟨boundary, there, chunkAt_placed made⟩
  · rw [chunkSource, if_neg solid]
    refine chunks_of_ends ?_ (ends_chunkBoundaries fun root found => (between root found).2)
    unfold chunkBoundaries
    simp only
    cases found : language.bind fun language => parse language source with
    | none => exact (lineBoundaries_partitions solid).proper
    | some root =>
      rw [Option.map_some]
      by_cases empty : mergeAdjacent desired (splitNode desired root 0) = []
      · rw [Option.filter_some, if_neg (by simpa using empty)]
        exact (lineBoundaries_partitions solid).proper
      · rw [Option.filter_some, if_pos (by simpa using empty)]
        exact (trees root (between root found).1).proper

/-- A tree of two leaves that are over the desired size. -/
def sampleTree : Node := .mk 0 70 [.mk 0 30 [], .mk 31 70 []]

theorem sampleTree_fits : sampleTree.Fits := by
  have leaf : ∀ start stop, start ≤ stop → Node.Fits (.mk start stop []) :=
    fun start stop proper => ⟨proper, proper, fun _ none => by cases none⟩
  refine ⟨by decide, ⟨by decide, by decide, by decide, by decide, Nat.le_refl 70⟩, ?_⟩
  intro child listed
  rcases mem_pair.mp listed with rfl | rfl
  · exact leaf 0 30 (by decide)
  · exact leaf 31 70 (by decide)

theorem chunk_partitions_sample : Partitions 32 sampleTree.InLeaf (sampleTree.Whole 0) [⟨0, 30⟩, ⟨31, 70⟩] :=
  (chunk_partitions 32).1 sampleTree sampleTree_fits

/-- A blank text has bytes, and no line. -/
theorem lineBoundaries_blank :
    ¬ ∀ (source : String) (desired : Nat), Partitions desired (· < Utf8.size source.toList) (SingleLine source.toList)
      (lineBoundaries source desired) := by
  intro always
  obtain ⟨boundary, listed, -⟩ := (always " \n" 10).covers 0 (by decide)
  rw [lineBoundaries, if_pos (by decide)] at listed
  cases listed

end Byok.Semble
