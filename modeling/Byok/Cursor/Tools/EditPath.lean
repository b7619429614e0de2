/-
**The keys of edit queues.** `server/src/cursor/tools/edit.rs`.

`schedule_key` brings the spellings of a path to one form, so that edits of one file come into one queue.
It keeps a `..` that stands at the filesystem root, where `..` leads nowhere, and it cuts off the blanks
around a path. So the keys of two spellings of one file are equal exactly when both climb out of the root
equally often and name one file without the blanks, too (`edit_queues_iff`).

* `scheduleKey`, `executionPath` — the functions of the source.
* `resolved` — the file that a path names, by its segments.
* `addComponents_eq` — the components of a key: the `..` that are left over, and the file.
-/

import Byok.Cursor.Tools.Schedule

namespace Byok

open List

/-! ### Edit calls -/

/-- `normalized`: the letters and digits of a tool name in lower case. -/
def normalizedName (name : String) : String :=
  String.ofList ((name.toList.filter Char.isAlphanum).map Char.toLower)

def pathFields : List String := ["path", "file_path", "filePath"]

def notebookPathFields : List String := ["target_notebook"]

def stringAny (call : ToolCall) (fields : List String) : Except Error String :=
  match fields.findSome? fun field => (call.arguments.get field).bind Value.asStr with
  | some value => .ok value
  | none => .error (.protocol (call.name ++ " is missing " ++ fields.headD ""))

/-- `path`. -/
def editPath (call : ToolCall) : Except Error String :=
  if normalizedName call.name = "editnotebook" then stringAny call notebookPathFields
  else stringAny call pathFields

/-- What the standard library says of paths: which are absolute, and how a file system that does not tell
cases apart spells a path. Where it does, `foldCase` is the identity. -/
structure Platform where
  isAbsolute : String → Bool
  foldCase : String → String

/-- A Unix system. -/
def unix : Platform := ⟨fun path => startsWith path "/", id⟩

def isSeparator (character : Char) : Bool := character == '/' || character == '\\'

/-- `trim_end_matches(['/', '\\'])`. -/
def trimEndSeparators (text : String) : String :=
  String.ofList (text.toList.reverse.dropWhile isSeparator).reverse

/-- The absolute path that a key is made of. -/
def rooted (platform : Platform) (path : String) (workspacePaths : List String) : String :=
  match (workspacePaths.map trim).find? fun root => root ≠ "" with
  | some root =>
    if platform.isAbsolute (trim path) then trim path
    else trimEndSeparators root ++ "/" ++ trim path
  | none => trim path

/-- `..`. -/
def parent : List Char := ['.', '.']

/-- The loop of `schedule_key`. -/
def addComponent (components : List (List Char)) (component : List Char) : List (List Char) :=
  if component = [] ∨ component = ['.'] then components
  else if component = parent then
    match components.getLast? with
    | some last => if last ≠ parent then components.dropLast else components ++ [parent]
    | none => components ++ [parent]
  else components ++ [component]

/-- `components.join("/")`. -/
def joined (components : List (List Char)) : String := String.ofList (['/'].intercalate components)

def scheduleKey (platform : Platform) (path : String) (workspacePaths : List String) : String :=
  platform.foldCase
    (joined (((rooted platform path workspacePaths).toList.splitOnP isSeparator).foldl addComponent []))

/-- The tools whose edits are queued. -/
def IsEdit (call : ToolCall) : Prop :=
  normalizedName call.name = "write" ∨ normalizedName call.name = "strreplace" ∨
    normalizedName call.name = "editnotebook"

instance (call : ToolCall) : Decidable (IsEdit call) :=
  inferInstanceAs (Decidable (_ ∨ _ ∨ _))

def executionPath (platform : Platform) (call : ToolCall) (workspacePaths : List String) :
    Except Error (Option String) :=
  if IsEdit call then
    (editPath call).map fun path => some (scheduleKey platform path workspacePaths)
  else .ok none

/-! ### The file that a path names -/

/-- A path, made absolute against the root. -/
def absolute (platform : Platform) (root path : String) : String :=
  if platform.isAbsolute path then path else root ++ "/" ++ path

/-- One step down a path, where `..` at the root stays there. -/
def descend (resolved : List (List Char)) (component : List Char) : List (List Char) :=
  if component = [] ∨ component = ['.'] then resolved
  else if component = parent then resolved.dropLast
  else resolved ++ [component]

/-- How often a path goes up from the root, once it is at `resolved`. -/
def climbs : List (List Char) → List (List Char) → Nat
  | _, [] => 0
  | resolved, component :: components =>
    (if component = parent ∧ resolved = [] then 1 else 0) + climbs (descend resolved component) components

/-- The segments of an absolute path. -/
def segments (path : String) : List (List Char) := path.toList.splitOnP isSeparator

/-- The file that a path names. -/
def resolved (platform : Platform) (root path : String) : List (List Char) :=
  (segments (absolute platform root path)).foldl descend []

/-- How often a path goes up from the root. -/
def escapes (platform : Platform) (root path : String) : Nat :=
  climbs [] (segments (absolute platform root path))

/-- Two paths that name one file, where `fold` says how a segment is read. -/
def SameFile (platform : Platform) (fold : List Char → List Char) (root first second : String) : Prop :=
  (resolved platform root first).map fold = (resolved platform root second).map fold

instance (platform : Platform) (fold : List Char → List Char) (root first second : String) :
    Decidable (SameFile platform fold root first second) :=
  inferInstanceAs (Decidable (_ = _))

/-! ### Components -/

theorem addComponent_root (left : Nat) :
    addComponent (List.replicate left parent) parent = List.replicate (left + 1) parent := by
  rw [addComponent, if_neg (by decide), if_pos rfl]
  cases left with
  | zero => rfl
  | succ left =>
    rw [replicate_succ', getLast?_concat]
    simp only
    rw [if_neg (fun other => other rfl), ← replicate_succ', ← replicate_succ']

theorem addComponent_below (above : List (List Char)) {last : List Char} (plain : last ≠ parent) :
    addComponent (above ++ [last]) parent = above := by
  rw [addComponent, if_neg (by decide), if_pos rfl, getLast?_concat]
  simp only
  rw [if_pos plain, dropLast_concat]

theorem addComponents_eq (left : Nat) (stack components : List (List Char)) (plain : parent ∉ stack) :
    components.foldl addComponent (List.replicate left parent ++ stack) =
      List.replicate (left + climbs stack components) parent ++ components.foldl descend stack := by
  induction components generalizing left stack with
  | nil => rfl
  | cons component components ih =>
    rw [foldl_cons, foldl_cons, climbs]
    by_cases skipped : component = [] ∨ component = ['.']
    · have other : component ≠ parent := by
        rintro rfl
        revert skipped
        decide
      rw [addComponent, descend, if_pos skipped, if_pos skipped, if_neg (fun up => other up.1),
        Nat.zero_add]
      exact ih left stack plain
    · by_cases up : component = parent
      · subst up
        rw [descend, if_neg skipped, if_pos rfl]
        rcases eq_nil_or_concat' stack with rfl | ⟨above, last, rfl⟩
        · rw [append_nil, addComponent_root, if_pos ⟨rfl, rfl⟩, ← Nat.add_assoc]
          have rest := ih (left + 1) [] plain
          rwa [append_nil] at rest
        · have other : last ≠ parent := by
            rintro rfl
            exact plain (mem_append_right _ (mem_singleton_self _))
          rw [← append_assoc, addComponent_below _ other, dropLast_concat,
            if_neg (fun root => by simp at root), Nat.zero_add]
          exact ih left above fun member => plain (mem_append_left _ member)
      · rw [addComponent, descend, if_neg skipped, if_neg skipped, if_neg up, if_neg up,
          if_neg (fun both => up both.1), Nat.zero_add, append_assoc]
        refine ih left (stack ++ [component]) fun member => ?_
        rcases mem_append.mp member with old | this
        · exact plain old
        · exact up (mem_singleton.mp this).symm

/-! ### Segments -/

/-- What can be a segment of a file. -/
structure IsSegment (segment : List Char) : Prop where
  named : segment ≠ []
  whole : '/' ∉ segment

theorem splitOnP_plain {α : Type} {p : α → Bool} {xs : List α} :
    ∀ piece ∈ xs.splitOnP p, ∀ x ∈ piece, p x = false := by
  induction xs with
  | nil => simp
  | cons x xs ih =>
    rw [splitOnP_cons_eq_if_modifyHead]
    by_cases here : p x = true
    · rw [if_pos here]
      intro piece member
      rcases mem_cons.mp member with rfl | old
      · simp
      · exact ih piece old
    · rw [if_neg here]
      obtain ⟨head, rest, split⟩ := exists_cons_of_ne_nil (splitOnP_ne_nil p xs)
      rw [split] at ih ⊢
      intro piece member
      rw [modifyHead_cons] at member
      rcases mem_cons.mp member with rfl | old
      · intro y member
        rcases mem_cons.mp member with rfl | old
        · exact Bool.eq_false_iff.mpr here
        · exact ih head mem_cons_self y old
      · exact ih piece (mem_cons_of_mem _ old)

theorem descend_segments {components stack : List (List Char)}
    (pieces : ∀ component ∈ components, '/' ∉ component)
    (plain : ∀ segment ∈ stack, IsSegment segment ∧ segment ≠ parent) :
    ∀ segment ∈ components.foldl descend stack, IsSegment segment ∧ segment ≠ parent := by
  induction components generalizing stack with
  | nil => exact plain
  | cons component components ih =>
    rw [foldl_cons]
    refine ih (fun other member => pieces other (mem_cons_of_mem _ member)) ?_
    rw [descend]
    by_cases skipped : component = [] ∨ component = ['.']
    · rw [if_pos skipped]
      exact plain
    · rw [if_neg skipped]
      by_cases up : component = parent
      · rw [if_pos up]
        exact fun segment member => plain segment (dropLast_subset _ member)
      · rw [if_neg up]
        intro segment member
        rcases mem_append.mp member with old | this
        · exact plain segment old
        · obtain rfl := mem_singleton.mp this
          exact ⟨⟨fun empty => skipped (.inl empty), pieces segment mem_cons_self⟩, up⟩

theorem resolved_segments (platform : Platform) (root path : String) :
    ∀ segment ∈ resolved platform root path, IsSegment segment ∧ segment ≠ parent := by
  refine descend_segments (fun component member slash => ?_) fun segment none => ?_
  · have plain := splitOnP_plain component member '/' slash
    revert plain
    decide
  · cases none

/-! ### Keys -/

/-- What is relied on of the folding of case: it goes segment by segment, leaves `..` alone, and makes no
other segment a `..`. So do `to_lowercase` and the identity. -/
structure Platform.Folds (platform : Platform) (fold : List Char → List Char) : Prop where
  bySegment : ∀ components, (∀ component ∈ components, IsSegment component) →
    platform.foldCase (joined components) = joined (components.map fold)
  segment : ∀ segment, IsSegment segment → IsSegment (fold segment)
  parent : ∀ segment, IsSegment segment → (fold segment = parent ↔ segment = parent)

theorem unix_folds : unix.Folds id where
  bySegment components _ := by
    rw [map_id]
    rfl
  segment _ whole := whole
  parent _ _ := Iff.rfl

theorem joined_inj {first second : List (List Char)} (plain : ∀ segment ∈ first, IsSegment segment)
    (plain' : ∀ segment ∈ second, IsSegment segment) : joined first = joined second ↔ first = second := by
  constructor
  · intro same
    have same : ['/'].intercalate first = ['/'].intercalate second := String.ofList_inj.mp same
    have split : ∀ list : List (List Char), (∀ segment ∈ list, IsSegment segment) →
        list ≠ [] → (['/'].intercalate list).splitOn '/' = list :=
      fun list segments some => splitOn_intercalate '/' (fun l member => (segments l member).whole) some
    have named : ∀ list : List (List Char), (∀ segment ∈ list, IsSegment segment) →
        ['/'].intercalate list = [] → list = [] := by
      intro list segments empty
      by_contra some
      have back := split list segments some
      rw [empty] at back
      have held : [] ∈ list := by
        rw [← back]
        simp
      exact (segments [] held).named rfl
    by_cases empty : second = []
    · subst empty
      exact named first plain same
    · have empty' : first ≠ [] := by
        rintro rfl
        exact empty (named second plain' same.symm)
      rw [← split first plain empty', same, split second plain' empty]
  · rintro rfl
    rfl

theorem replicate_append_inj {left right : Nat} {first second : List (List Char)}
    (plain : parent ∉ first) (plain' : parent ∉ second) :
    List.replicate left parent ++ first = List.replicate right parent ++ second ↔
      left = right ∧ first = second := by
  constructor
  · intro same
    induction left generalizing right with
    | zero =>
      cases right with
      | zero => exact ⟨rfl, same⟩
      | succ right =>
        refine absurd ?_ plain
        rw [replicate_zero, nil_append] at same
        rw [same]
        exact mem_cons_self
    | succ left ih =>
      cases right with
      | zero =>
        refine absurd ?_ plain'
        rw [replicate_zero, nil_append] at same
        rw [← same]
        exact mem_cons_self
      | succ right =>
        obtain ⟨rfl, rest⟩ := ih (List.cons.inj same).2
        exact ⟨rfl, rest⟩
  · rintro ⟨rfl, rfl⟩
    rfl

theorem descend_skips (stack : List (List Char)) (count : Nat) (rest : List (List Char)) :
    (List.replicate count [] ++ rest).foldl descend stack = rest.foldl descend stack ∧
      climbs stack (List.replicate count [] ++ rest) = climbs stack rest := by
  induction count with
  | zero => exact ⟨rfl, rfl⟩
  | succ count ih =>
    rw [replicate_succ, cons_append, foldl_cons, climbs, descend, if_pos (.inl rfl),
      if_neg (fun up => by cases up.1), Nat.zero_add]
    exact ih

theorem climbs_append (stack first second : List (List Char)) :
    climbs stack (first ++ second) = climbs stack first + climbs (first.foldl descend stack) second := by
  induction first generalizing stack with
  | nil => simp [climbs]
  | cons component first ih =>
    rw [cons_append, climbs, climbs, ih, foldl_cons, Nat.add_assoc]

theorem descend_between (before rest : List (List Char)) (count : Nat) :
    (before ++ (List.replicate count [] ++ rest)).foldl descend [] =
        rest.foldl descend (before.foldl descend []) ∧
      climbs [] (before ++ (List.replicate count [] ++ rest)) =
        climbs [] before + climbs (before.foldl descend []) rest := by
  obtain ⟨same, climb⟩ := descend_skips (before.foldl descend []) count rest
  constructor
  · rw [foldl_append, same]
  · rw [climbs_append, climb]

theorem segments_separators (separators : List Char) (all : ∀ c ∈ separators, isSeparator c = true)
    (rest : List Char) :
    (separators ++ rest).splitOnP isSeparator =
      List.replicate separators.length [] ++ rest.splitOnP isSeparator := by
  induction separators with
  | nil => rfl
  | cons separator separators ih =>
    obtain ⟨first, more⟩ := forall_mem_cons.mp all
    rw [cons_append, splitOnP_cons_eq_if_modifyHead, if_pos first, ih more]
    rfl

theorem segments_between (before rest : List Char) {separators : List Char} (some : separators ≠ [])
    (all : ∀ c ∈ separators, isSeparator c = true) :
    (before ++ (separators ++ rest)).splitOnP isSeparator =
      before.splitOnP isSeparator ++
        (List.replicate (separators.length - 1) [] ++ rest.splitOnP isSeparator) := by
  cases separators with
  | nil => exact absurd rfl some
  | cons separator separators =>
    obtain ⟨first, more⟩ := forall_mem_cons.mp all
    rw [cons_append, splitOnP_append_cons _ _ first, segments_separators separators more,
      length_cons, Nat.add_sub_cancel]

theorem segments_trimEnd (root path : String) :
    (segments (trimEndSeparators root ++ "/" ++ path)).foldl descend [] =
        (segments (root ++ "/" ++ path)).foldl descend [] ∧
      climbs [] (segments (trimEndSeparators root ++ "/" ++ path)) =
        climbs [] (segments (root ++ "/" ++ path)) := by
  obtain ⟨separators, whole, all⟩ : ∃ separators : List Char,
      root.toList = (trimEndSeparators root).toList ++ separators ∧
        ∀ c ∈ separators, isSeparator c = true := by
    refine ⟨(root.toList.reverse.takeWhile isSeparator).reverse, ?_, fun c member => ?_⟩
    · rw [trimEndSeparators, String.toList_ofList, ← reverse_append, takeWhile_append_dropWhile,
        reverse_reverse]
    · exact all_eq_true.mp all_takeWhile c (mem_reverse.mp member)
  have slash : ∀ c ∈ ['/'], isSeparator c = true := fun c member => by
    rw [mem_singleton.mp member]
    rfl
  have ends : ∀ c ∈ separators ++ ['/'], isSeparator c = true := fun c member =>
    (mem_append.mp member).elim (all c) (slash c)
  have short : segments (trimEndSeparators root ++ "/" ++ path) =
      (trimEndSeparators root).toList.splitOnP isSeparator ++
        (List.replicate 0 [] ++ path.toList.splitOnP isSeparator) := by
    rw [segments, String.toList_append, String.toList_append, append_assoc]
    exact segments_between _ _ (by simp) slash
  have long : segments (root ++ "/" ++ path) =
      (trimEndSeparators root).toList.splitOnP isSeparator ++
        (List.replicate ((separators ++ ['/']).length - 1) [] ++ path.toList.splitOnP isSeparator) := by
    rw [segments, String.toList_append, String.toList_append, whole, append_assoc, append_assoc,
      ← append_assoc separators]
    exact segments_between _ _ (by simp) ends
  rw [short, long]
  constructor
  · rw [(descend_between _ _ _).1, (descend_between _ _ _).1]
  · rw [(descend_between _ _ _).2, (descend_between _ _ _).2]

section Key

variable {platform : Platform} {workspacePaths : List String} {root : String}

theorem scheduleKey_eq (first : workspacePaths.find? (fun root => trim root ≠ "") = some root)
    (path : String) :
    scheduleKey platform path workspacePaths =
      platform.foldCase (joined
        (List.replicate (escapes platform (trim root) (trim path)) parent ++
          resolved platform (trim root) (trim path))) := by
  have found : (workspacePaths.map trim).find? (fun root => root ≠ "") = some (trim root) := by
    rw [find?_map]
    show (workspacePaths.find? fun root => trim root ≠ "").map trim = _
    rw [first]
    rfl
  have components : ((rooted platform path workspacePaths).toList.splitOnP isSeparator).foldl addComponent [] =
      List.replicate (escapes platform (trim root) (trim path)) parent ++
        resolved platform (trim root) (trim path) := by
    have key := addComponents_eq 0 [] (segments (rooted platform path workspacePaths)) (by simp)
    rw [replicate_zero, nil_append, Nat.zero_add] at key
    refine Eq.trans key ?_
    unfold rooted escapes resolved absolute
    rw [found]
    by_cases whole : platform.isAbsolute (trim path) = true
    · simp only [whole, if_true]
    · simp only [whole]
      obtain ⟨same, climb⟩ := segments_trimEnd (trim root) (trim path)
      simp only [Bool.false_eq_true, if_false]
      rw [same, climb]
  rw [scheduleKey, components]

theorem scheduleKey_eq_iff {fold : List Char → List Char} (folds : platform.Folds fold)
    (first : workspacePaths.find? (fun root => trim root ≠ "") = some root) (p q : String) :
    scheduleKey platform p workspacePaths = scheduleKey platform q workspacePaths ↔
      escapes platform (trim root) (trim p) = escapes platform (trim root) (trim q) ∧
        SameFile platform fold (trim root) (trim p) (trim q) := by
  have dots : IsSegment parent := ⟨by decide, by decide⟩
  have whole : ∀ path, ∀ component ∈ List.replicate (escapes platform (trim root) (trim path)) parent ++
      resolved platform (trim root) (trim path), IsSegment component := by
    intro path component member
    rcases mem_append.mp member with left | inside
    · rw [eq_of_mem_replicate left]
      exact dots
    · exact (resolved_segments platform _ _ component inside).1
  have folded : ∀ path, ∀ component ∈ (List.replicate (escapes platform (trim root) (trim path)) parent ++
      resolved platform (trim root) (trim path)).map fold, IsSegment component := by
    intro path component member
    obtain ⟨before, held, rfl⟩ := mem_map.mp member
    exact folds.segment before (whole path before held)
  have plain : ∀ path, parent ∉ (resolved platform (trim root) (trim path)).map fold := by
    intro path member
    obtain ⟨segment, held, up⟩ := mem_map.mp member
    obtain ⟨named, other⟩ := resolved_segments platform _ _ segment held
    exact other ((folds.parent segment named).mp up)
  rw [scheduleKey_eq first, scheduleKey_eq first, folds.bySegment _ (whole p), folds.bySegment _ (whole q),
    joined_inj (folded p) (folded q), map_append, map_append, map_replicate,
    map_replicate, (folds.parent parent dots).mpr rfl, replicate_append_inj (plain p) (plain q)]
  rfl

end Key

/-! ### Edits of one file -/

theorem executionPath_edit {platform : Platform} {call : ToolCall} {path : String} (edits : IsEdit call)
    (named : editPath call = .ok path) (workspacePaths : List String) :
    executionPath platform call workspacePaths = .ok (some (scheduleKey platform path workspacePaths)) := by
  rw [executionPath, if_pos edits, named]
  rfl

/-- **Edits of one key never overlap, and two edits of one file have one key exactly when** their paths
climb out of the root equally often and name one file without the blanks at their ends. -/
theorem edit_queues_iff {platform : Platform} {fold : List Char → List Char} (folds : platform.Folds fold) :
    (∀ (κ : Type) (history : EditHistory κ), EditHistory.system.Reachable history →
      history.InOrder ∧ ∀ callId, history.Completes callId) ∧
    ∀ (workspacePaths : List String) (root : String) (first second : ToolCall) (p q : String),
      workspacePaths.find? (fun root => trim root ≠ "") = some root →
      IsEdit first → IsEdit second → editPath first = .ok p → editPath second = .ok q →
      SameFile platform fold root p q →
      (executionPath platform first workspacePaths = executionPath platform second workspacePaths ↔
        escapes platform (trim root) (trim p) = escapes platform (trim root) (trim q) ∧
          SameFile platform fold (trim root) (trim p) (trim q)) := by
  refine ⟨fun κ history reachable => EditHistory.reachable_inOrder reachable, ?_⟩
  intro workspacePaths root first second p q here edits edits' named named' _
  rw [executionPath_edit edits named, executionPath_edit edits' named', ← scheduleKey_eq_iff folds here]
  constructor
  · intro same
    exact Option.some.inj (Except.ok.inj same)
  · intro same
    rw [same]

/-- A `Write` of a path. -/
def writeCall (path : String) : ToolCall :=
  ⟨0, "call", "model", "Write", "", .object [("path", .string path), ("contents", .string "x")], none⟩

/-- `/../a` is `/a`, but it has a key of its own. -/
theorem parent_of_root_kept :
    SameFile unix id "/repo" "/../a" "/a" ∧
      executionPath unix (writeCall "/../a") ["/repo"] ≠ executionPath unix (writeCall "/a") ["/repo"] := by
  decide +kernel

theorem edit_queues_iff_sample :
    executionPath unix (writeCall "./src/../a") ["/repo"] =
      executionPath unix (writeCall "/repo\\a") ["/repo"] :=
  ((edit_queues_iff unix_folds).2 ["/repo"] "/repo" (writeCall "./src/../a") (writeCall "/repo\\a") _ _
    (by decide +kernel) (.inl (by decide +kernel)) (.inl (by decide +kernel)) rfl rfl
    (by decide +kernel)).mpr (by decide +kernel)

end Byok
