/-
**The streamed edit card.** `server/src/cursor/tools/stream.rs`, `server/src/cursor/tools/edit.rs`.

While the arguments of a write come in, its card shows the path and the text that will be written; when they
are whole, `after_read` computes the edit. Both agree (`edit_card_agrees`): the card reads the arguments
character by character and holds a carriage return back until it knows what follows, the edit reads them
parsed and normalizes the line ends in two passes.

* `normalizeNewlines`, `afterRead` — the edit.
* `EditProjection.project` — the card.
* `newlines_eq` — the line ends, character by character and in two passes.
-/

import Byok.Cursor.Protocol.StringMembers
import Byok.Cursor.Tools.EditPath

namespace Byok

open Library Library.Json List

/-! ### Texts -/

/-- `str::replace` of a pattern that is not empty, where `skip` characters of the last match are left. -/
def replaceFrom (pattern text : List Char) : Nat → List Char → List Char
  | _, [] => []
  | skip + 1, _ :: rest => replaceFrom pattern text skip rest
  | 0, character :: rest =>
    if pattern.isPrefixOf (character :: rest) then
      text ++ replaceFrom pattern text (pattern.length - 1) rest
    else character :: replaceFrom pattern text 0 rest

/-- `str::replace`. -/
def replaceAll (value pattern text : String) : String :=
  String.ofList (replaceFrom pattern.toList text.toList 0 value.toList)

/-- `str::replacen` of one match. -/
def replaceFirst (pattern text : List Char) : List Char → List Char
  | [] => []
  | character :: rest =>
    if pattern.isPrefixOf (character :: rest) then text ++ (character :: rest).drop pattern.length
    else character :: replaceFirst pattern text rest

/-- How many matches `str::match_indices` gives. -/
def countFrom (pattern : List Char) : Nat → List Char → Nat
  | _, [] => 0
  | skip + 1, _ :: rest => countFrom pattern skip rest
  | 0, character :: rest =>
    if pattern.isPrefixOf (character :: rest) then 1 + countFrom pattern (pattern.length - 1) rest
    else countFrom pattern 0 rest

def normalizeNewlines (value : String) : String := replaceAll (replaceAll value "\r\n" "\n") "\r" "\n"

/-- `Error::to_string`, as far as it has a text of its own. -/
def Error.describe : Error → String
  | .protocol message => "protocol error: " ++ message
  | .store message => "store error: " ++ message
  | .runNotFound runId => "run not found: " ++ runId
  | .database => "database error"
  | .json => "json error"

/-! ### The edit -/

structure EditWrite where
  before : String
  after : String
deriving DecidableEq, Repr

/-- `read_success::Output`. -/
inductive ReadOutput where
  | content (content : String)
  | data
deriving DecidableEq, Repr

inductive ReadResult where
  | success (truncated : Bool) (output : Option ReadOutput)
  | fileNotFound
  | error (error : String)
  | rejected (reason : String)
  | permissionDenied
  | invalidFile (reason : String)
  | empty
deriving DecidableEq, Repr

def contentFields : List String := ["contents", "content"]

/-- `string`. -/
def stringField (call : ToolCall) (field : String) : Except String String :=
  (stringAny call [field]).mapError Error.describe

def replaceString (call : ToolCall) (before : String) : Except String String := do
  let old := normalizeNewlines (← stringField call "old_string")
  let new := normalizeNewlines (← stringField call "new_string")
  if old = "" then .error "old_string must not be empty"
  else
    let replaceEvery := ((call.arguments.get "replace_all").bind Value.asBool).getD false
    match replaceEvery, countFrom old.toList 0 before.toList with
    | _, 0 => .error "old_string was not found"
    | false, 1 => .ok (String.ofList (replaceFirst old.toList new.toList before.toList))
    | false, count => .error ("old_string is not unique; found " ++ toString count ++ " occurrences")
    | true, _ => .ok (replaceAll before old new)

/-- The text of the file that was read. -/
def readBefore (call : ToolCall) : ReadResult → Except String String
  | .success truncated output =>
    if truncated then .error "cannot edit a truncated Read result"
    else
      match output with
      | some (.content content) => .ok (normalizeNewlines content)
      | some .data => .error "cannot edit a binary file"
      | none => .error "Read result has no file content"
  | .fileNotFound =>
    if normalizedName call.name = "write" then .ok "" else .error "file not found"
  | .error error => .error error
  | .rejected reason => .error reason
  | .permissionDenied => .error "read permission denied"
  | .invalidFile reason => .error reason
  | .empty => .error "Read result is empty"

/-- The text that the file is to have. Edits of notebooks are a parameter. -/
def editAfter (editNotebook : ToolCall → String → Except String String) (call : ToolCall)
    (before : String) : Except String String :=
  if normalizedName call.name = "write" then
    ((stringAny call contentFields).mapError Error.describe).map normalizeNewlines
  else if normalizedName call.name = "strreplace" then replaceString call before
  else if normalizedName call.name = "editnotebook" then editNotebook call before
  else .error (call.name ++ " is not an edit tool")

def afterRead (editNotebook : ToolCall → String → Except String String) (call : ToolCall)
    (result : ReadResult) : Except String EditWrite := do
  let before ← readBefore call result
  let after ← editAfter editNotebook call before
  .ok { before, after }

/-! ### The card -/

/-- One character of `NewlineStream::push`: what it gives, and whether a carriage return is pending. -/
def newline (pending : Bool) (character : Char) : List Char × Bool :=
  let held := if pending then ['\n'] else []
  if pending = true ∧ character = '\n' then (held, false)
  else if character = '\r' then (held, true)
  else (held ++ [character], false)

/-- The loop of `NewlineStream::push`. -/
def newlines (pending : Bool) : List Char → List Char × Bool
  | [] => ([], pending)
  | character :: text =>
    let (output, pending) := newline pending character
    let (more, pending) := newlines pending text
    (output ++ more, pending)

/-- `NewlineStream::push`. -/
def pushNewlines (pending : Bool) (text : String) (finished : Bool) : String × Bool :=
  let (output, pending) := newlines pending text.toList
  if finished && pending then (String.ofList (output ++ ['\n']), false)
  else (String.ofList output, pending)

/-- `edit_path_partial` and `edit_content_delta`. -/
inductive EditUpdate where
  | path (callId modelCallId path : String)
  | content (callId modelCallId content : String)
deriving DecidableEq, Repr

structure EditProjection where
  fields : JsonStringFields := {}
  pathFields : List String
  contentFields : List String
  path : String := ""
  pending : Bool := false
deriving DecidableEq, Repr

/-- The edits among the presentations that `ToolCallStream::new` chooses from, for a tool that is no dynamic
one. -/
def editPresentation (name : String) : Option EditProjection :=
  if normalizedName name = "write" then some { pathFields, contentFields }
  else if normalizedName name = "strreplace" then some { pathFields, contentFields := ["new_string"] }
  else if normalizedName name = "editnotebook" then
    some { pathFields := notebookPathFields, contentFields := ["new_string"] }
  else none

/-- The update of a piece of content, if there is one. -/
def contentUpdate (call : ToolCall) (content : String) : List EditUpdate :=
  if content = "" then [] else [.content call.callId call.modelCallId content]

/-- One event of `EditProjection::project`. -/
def EditProjection.handle (call : ToolCall) (edit : EditProjection) (event : StringFieldEvent) :
    List EditUpdate × EditProjection :=
  if event.name ∈ edit.pathFields then
    match event with
    | .delta _ text => ([], { edit with path := edit.path ++ text })
    | .ended _ => ([.path call.callId call.modelCallId edit.path], edit)
  else if event.name ∈ edit.contentFields then
    match event with
    | .delta _ text =>
      let (content, pending) := pushNewlines edit.pending text false
      (contentUpdate call content, { edit with pending })
    | .ended _ =>
      let (content, pending) := pushNewlines edit.pending "" true
      (contentUpdate call content, { edit with pending })
  else ([], edit)

/-- The loop of `EditProjection::project`. -/
def EditProjection.handleAll (call : ToolCall) (edit : EditProjection) :
    List StringFieldEvent → List EditUpdate × EditProjection
  | [] => ([], edit)
  | event :: events =>
    let (messages, edit) := edit.handle call event
    let (more, edit) := edit.handleAll call events
    (messages ++ more, edit)

/-- `EditProjection::project`: what `ToolCallStream::arguments_delta` does for an edit. -/
def EditProjection.project (json : SerdeJson) (edit : EditProjection) (delta : ToolCall × String) :
    Except Error (List EditUpdate × EditProjection) := do
  let (events, fields) ← edit.fields.push json delta.2
  .ok ({ edit with fields }.handleAll delta.1 events)

/-- The card of a call, over the deltas of its arguments. -/
def card (json : SerdeJson) : Transducer EditProjection (ToolCall × String) EditUpdate Error :=
  ⟨EditProjection.project json, fun _ => .ok []⟩

/-- The text that the updates of a card add up to. -/
def contentOf (updates : List EditUpdate) : String :=
  String.join (updates.filterMap fun update =>
    match update with
    | .content _ _ content => some content
    | .path _ _ _ => none)

/-- The paths that they announce. -/
def pathsOf (updates : List EditUpdate) : List String :=
  updates.filterMap fun update =>
    match update with
    | .path _ _ path => some path
    | .content _ _ _ => none

/-! ### Line ends -/

theorem newlines_append (pending : Bool) (text more : List Char) :
    newlines pending (text ++ more) =
      ((newlines pending text).1 ++ (newlines (newlines pending text).2 more).1,
        (newlines (newlines pending text).2 more).2) := by
  induction text generalizing pending with
  | nil => rfl
  | cons character text ih =>
    rw [cons_append, newlines, newlines]
    simp only [ih, append_assoc]

theorem replaceFrom_return (text : List Char) :
    replaceFrom ['\r'] ['\n'] 0 text = text.map fun character => if character = '\r' then '\n' else character := by
  induction text with
  | nil => rfl
  | cons character text ih =>
    rw [replaceFrom, map_cons]
    by_cases this : character = '\r'
    · subst this
      show ['\n'] ++ replaceFrom ['\r'] ['\n'] 0 text = _
      rw [ih]
      rfl
    · rw [if_neg (by simp [List.isPrefixOf, Ne.symm this]), if_neg this, ih]

/-- The line ends of a text, in two passes. -/
def lines (text : List Char) : List Char :=
  (replaceFrom ['\r', '\n'] ['\n'] 0 text).map fun character =>
    if character = '\r' then '\n' else character

theorem normalizeNewlines_eq (value : String) : normalizeNewlines value = String.ofList (lines value.toList) := by
  have both : "\r\n".toList = ['\r', '\n'] := rfl
  have feed : "\n".toList = ['\n'] := rfl
  have single : "\r".toList = ['\r'] := rfl
  rw [normalizeNewlines, replaceAll, replaceAll, both, feed, single, lines, replaceFrom_return,
    String.toList_ofList]

theorem lines_other {character : Char} (other : character ≠ '\r') (text : List Char) :
    lines (character :: text) = character :: lines text := by
  rw [lines, replaceFrom, if_neg (by simp [List.isPrefixOf, Ne.symm other]), map_cons, if_neg other]
  rfl

theorem lines_return {text : List Char} (other : text.head? ≠ some '\n') :
    lines ('\r' :: text) = '\n' :: lines text := by
  cases text with
  | nil => rfl
  | cons character text =>
    have this : ¬ '\n' = character := fun same => other (by rw [same]; rfl)
    rw [lines, replaceFrom, if_neg (by simp [List.isPrefixOf, this]), map_cons, if_pos rfl]
    rfl

/-- What is left when a stream ends. -/
def flush (pending : Bool) : List Char := if pending then ['\n'] else []

/-- **Line ends, character by character**, are those of the two passes, where a carriage return that is
pending stands before the text. -/
theorem newlines_eq (pending : Bool) (text : List Char) :
    (newlines pending text).1 ++ flush (newlines pending text).2 =
      lines ((if pending then ['\r'] else []) ++ text) := by
  induction text generalizing pending with
  | nil => cases pending <;> rfl
  | cons character text ih =>
    rw [newlines]
    simp only [append_assoc, ih]
    cases pending with
    | false =>
      by_cases this : character = '\r'
      · subst this
        rfl
      · rw [newline, if_neg (by simp), if_neg this]
        simp [lines_other this]
    | true =>
      by_cases feed : character = '\n'
      · subst feed
        rfl
      · by_cases this : character = '\r'
        · subst this
          show '\n' :: lines ('\r' :: text) = lines ('\r' :: '\r' :: text)
          rw [@lines_return ('\r' :: text) fun same => absurd (Option.some.inj same) (by decide)]
        · have before : lines ('\r' :: character :: text) = '\n' :: lines (character :: text) :=
            lines_return fun same => feed (Option.some.inj same)
          rw [newline, if_neg (by simp [feed]), if_neg this]
          simp [before, lines_other this]

/-! ### What a card shows -/

/-- The content that the events of the content member add up to, and whether a carriage return is pending. -/
def told (pending : Bool) : List StringFieldEvent → List Char × Bool
  | [] => ([], pending)
  | .delta _ text :: events =>
    ((newlines pending text.toList).1 ++ (told (newlines pending text.toList).2 events).1,
      (told (newlines pending text.toList).2 events).2)
  | .ended _ :: events => (flush pending ++ (told false events).1, (told false events).2)

/-- The paths that the events of the path member announce, and the path so far. -/
def announced (path : String) : List StringFieldEvent → List String × String
  | [] => ([], path)
  | .delta _ text :: events => announced (path ++ text) events
  | .ended _ :: events => (path :: (announced path events).1, (announced path events).2)

theorem told_append (pending : Bool) (events more : List StringFieldEvent) :
    told pending (events ++ more) =
      ((told pending events).1 ++ (told (told pending events).2 more).1,
        (told (told pending events).2 more).2) := by
  induction events generalizing pending with
  | nil => rfl
  | cons event events ih =>
    cases event with
    | delta name text => simp only [cons_append, told, ih, append_assoc]
    | ended name => simp only [cons_append, told, ih, append_assoc]

theorem announced_append (path : String) (events more : List StringFieldEvent) :
    announced path (events ++ more) =
      ((announced path events).1 ++ (announced (announced path events).2 more).1,
        (announced (announced path events).2 more).2) := by
  induction events generalizing path with
  | nil => rfl
  | cons event events ih =>
    cases event with
    | delta name text => simp only [cons_append, announced, ih]
    | ended name => simp only [cons_append, announced, ih]

theorem told_reports {name text : String} {texts : List String} (joined : String.join texts = text) :
    (told false (texts.map (.delta name) ++ [.ended name])).1 = (normalizeNewlines text).toList := by
  have deltas : ∀ pending, told pending (texts.map (.delta name)) =
      newlines pending (texts.flatMap String.toList) := by
    clear joined
    induction texts with
    | nil => exact fun _ => rfl
    | cons piece texts ih =>
      intro pending
      rw [map_cons, told, ih, flatMap_cons, newlines_append]
  rw [told_append, deltas, ← String.toList_join, joined, normalizeNewlines_eq, String.toList_ofList]
  have whole := newlines_eq false text.toList
  simpa [told] using whole

theorem announced_reports {name text : String} {texts : List String} (joined : String.join texts = text) :
    (announced "" (texts.map (.delta name) ++ [.ended name])).1 = [text] := by
  have deltas : ∀ path, announced path (texts.map (.delta name)) = ([], path ++ String.join texts) := by
    clear joined
    induction texts with
    | nil => exact fun path => by simp [announced, String.join]
    | cons piece texts ih =>
      intro path
      rw [map_cons, announced, ih, Prod.mk.injEq]
      refine ⟨rfl, ?_⟩
      rw [← String.toList_inj]
      simp
  rw [announced_append, deltas, joined]
  simp [announced]

@[simp] theorem contentOf_append (updates more : List EditUpdate) :
    contentOf (updates ++ more) = contentOf updates ++ contentOf more := by
  rw [← String.toList_inj]
  simp [contentOf]

@[simp] theorem pathsOf_append (updates more : List EditUpdate) :
    pathsOf (updates ++ more) = pathsOf updates ++ pathsOf more := by
  rw [pathsOf, pathsOf, pathsOf, filterMap_append]

@[simp] theorem contentOf_contentUpdate (call : ToolCall) (content : String) :
    contentOf (contentUpdate call content) = content := by
  by_cases nothing : content = ""
  · rw [contentUpdate, if_pos nothing, nothing]
    rfl
  · rw [contentUpdate, if_neg nothing, ← String.toList_inj]
    simp [contentOf]

@[simp] theorem pathsOf_contentUpdate (call : ToolCall) (content : String) :
    pathsOf (contentUpdate call content) = [] := by
  by_cases nothing : content = ""
  · rw [contentUpdate, if_pos nothing]
    rfl
  · rw [contentUpdate, if_neg nothing]
    rfl

/-- What a list of updates and the card after it have shown of `events`. -/
structure Shows (edit after : EditProjection) (events : List StringFieldEvent)
    (updates : List EditUpdate) : Prop where
  pathFields : after.pathFields = edit.pathFields
  contentFields : after.contentFields = edit.contentFields
  content : (contentOf updates).toList =
    (told edit.pending (events.filter (·.name ∈ edit.contentFields))).1
  pending : after.pending = (told edit.pending (events.filter (·.name ∈ edit.contentFields))).2
  paths : pathsOf updates = (announced edit.path (events.filter (·.name ∈ edit.pathFields))).1
  path : after.path = (announced edit.path (events.filter (·.name ∈ edit.pathFields))).2

namespace Shows

theorem nil (edit : EditProjection) : Shows edit edit [] [] := ⟨rfl, rfl, rfl, rfl, rfl, rfl⟩

theorem append {edit between after : EditProjection} {events more : List StringFieldEvent}
    {updates others : List EditUpdate} (first : Shows edit between events updates)
    (second : Shows between after more others) : Shows edit after (events ++ more) (updates ++ others) where
  pathFields := second.pathFields.trans first.pathFields
  contentFields := second.contentFields.trans first.contentFields
  content := by
    rw [contentOf_append, String.toList_append, first.content, second.content, first.contentFields,
      first.pending, filter_append, told_append]
  pending := by
    rw [second.pending, first.contentFields, first.pending, filter_append, told_append]
  paths := by
    rw [pathsOf_append, first.paths, second.paths, first.pathFields, first.path, filter_append,
      announced_append]
  path := by
    rw [second.path, first.pathFields, first.path, filter_append, announced_append]

theorem of_fields {edit after : EditProjection} {events : List StringFieldEvent}
    {updates : List EditUpdate} {fields : JsonStringFields}
    (shows : Shows { edit with fields } after events updates) : Shows edit after events updates :=
  ⟨shows.pathFields, shows.contentFields, shows.content, shows.pending, shows.paths, shows.path⟩

end Shows

theorem handle_shows (call : ToolCall) {edit : EditProjection}
    (apart : ∀ name ∈ edit.contentFields, name ∉ edit.pathFields) (event : StringFieldEvent) :
    Shows edit (edit.handle call event).2 [event] (edit.handle call event).1 := by
  have hit : ∀ {names : List String}, event.name ∈ names → [event].filter (·.name ∈ names) = [event] :=
    fun listed => by rw [filter_singleton, decide_eq_true listed]; rfl
  have miss : ∀ {names : List String}, event.name ∉ names → [event].filter (·.name ∈ names) = [] :=
    fun absent => by rw [filter_singleton, decide_eq_false absent]; rfl
  by_cases path : event.name ∈ edit.pathFields
  · have other : event.name ∉ edit.contentFields := fun content => apart _ content path
    simp only [EditProjection.handle, if_pos path]
    cases event with
    | delta name text => exact ⟨rfl, rfl, by rw [miss other]; rfl, by rw [miss other]; rfl,
        by rw [hit path]; rfl, by rw [hit path]; rfl⟩
    | ended name => exact ⟨rfl, rfl, by rw [miss other]; rfl, by rw [miss other]; rfl,
        by rw [hit path]; rfl, by rw [hit path]; rfl⟩
  · by_cases content : event.name ∈ edit.contentFields
    · simp only [EditProjection.handle, if_neg path, if_pos content]
      cases event with
      | delta name text =>
        refine ⟨rfl, rfl, ?_, ?_, by rw [miss path, pathsOf_contentUpdate]; rfl, by rw [miss path]; rfl⟩
        · rw [hit content, contentOf_contentUpdate]
          simp [pushNewlines, told]
        · rw [hit content]
          simp [pushNewlines, told]
      | ended name =>
        refine ⟨rfl, rfl, ?_, ?_, by rw [miss path, pathsOf_contentUpdate]; rfl, by rw [miss path]; rfl⟩
        · rw [hit content, contentOf_contentUpdate]
          cases edit.pending <;> rfl
        · rw [hit content]
          cases pending : edit.pending <;> simp [pushNewlines, told, newlines]
    · simp only [EditProjection.handle, if_neg path, if_neg content]
      exact ⟨rfl, rfl, by rw [miss content]; rfl, by rw [miss content]; rfl, by rw [miss path]; rfl,
        by rw [miss path]; rfl⟩

theorem handleAll_shows (call : ToolCall) {edit : EditProjection}
    (apart : ∀ name ∈ edit.contentFields, name ∉ edit.pathFields) (events : List StringFieldEvent) :
    Shows edit (edit.handleAll call events).2 events (edit.handleAll call events).1 := by
  induction events generalizing edit with
  | nil => exact .nil edit
  | cons event events ih =>
    have first := handle_shows call apart event
    rw [EditProjection.handleAll]
    exact first.append (ih (by rw [first.contentFields, first.pathFields]; exact apart))

theorem handleAll_fields (call : ToolCall) (edit : EditProjection) (events : List StringFieldEvent) :
    (edit.handleAll call events).2.fields = edit.fields := by
  have one : ∀ (edit : EditProjection) (event : StringFieldEvent),
      (edit.handle call event).2.fields = edit.fields := by
    intro edit event
    simp only [EditProjection.handle]
    split
    · cases event <;> rfl
    · split
      · cases event <;> rfl
      · rfl
  induction events generalizing edit with
  | nil => rfl
  | cons event events ih =>
    rw [EditProjection.handleAll]
    exact (ih _).trans (one edit event)

/-- **A card shows what the JSON machine reports**, whatever the calls look like meanwhile. -/
theorem card_shows {json : SerdeJson} {deltas : List (ToolCall × String)} {edit : EditProjection}
    {events : List StringFieldEvent} {last : JsonStringFields}
    (apart : ∀ name ∈ edit.contentFields, name ∉ edit.pathFields)
    (fed : (chunks json).run edit.fields (deltas.map Prod.snd) = .ok (events, last)) :
    ∃ updates after, (card json).run edit deltas = .ok (updates, after) ∧
      Shows edit after events updates := by
  induction deltas generalizing edit events with
  | nil =>
    obtain ⟨rfl, rfl⟩ := Prod.mk.inj (Except.ok.inj fed)
    exact ⟨[], edit, rfl, .nil edit⟩
  | cons delta deltas ih =>
    obtain ⟨call, text⟩ := delta
    rw [map_cons, ← singleton_append] at fed
    obtain ⟨first, between, more, head, rest, rfl⟩ := (chunks json).run_append_inv fed
    have pushed : edit.fields.push json text = .ok (first, between) :=
      (chunks json).run_singleton_inv head
    have shows := (@handleAll_shows call { edit with fields := between } apart first).of_fields
    obtain ⟨updates, after, ran, shown⟩ := @ih ({ edit with fields := between }.handleAll call first).2 more
      (by rw [shows.contentFields, shows.pathFields]; exact apart) (by rw [handleAll_fields]; exact rest)
    refine ⟨_, after, (card json).run_cons_ok ?_ ran, shows.append shown⟩
    show EditProjection.project json edit (call, text) = _
    rw [EditProjection.project, pushed, except_ok_bind]

/-! ### The card and the edit -/

/-- At most one of the spellings of a field is there. -/
def OneAlias (arguments : Value) (aliases : List String) : Prop :=
  ∀ first ∈ aliases, ∀ second ∈ aliases, (arguments.get first).isSome → (arguments.get second).isSome →
    first = second

theorem stringAny_ok {call : ToolCall} {aliases : List String} {text : String}
    (one : OneAlias call.arguments aliases) (found : stringAny call aliases = .ok text) :
    ∃ name ∈ aliases, (call.arguments.get name).bind Value.asStr = some text ∧
      ∀ other ∈ aliases, other ≠ name → (call.arguments.get other).bind Value.asStr = none := by
  rw [stringAny] at found
  split at found
  · rename_i value here
    obtain rfl := Except.ok.inj found
    obtain ⟨name, listed, this⟩ := exists_of_findSome?_eq_some here
    refine ⟨name, listed, this, fun other otherListed apart => ?_⟩
    have some : (call.arguments.get name).isSome := by
      cases got : call.arguments.get name with
      | none =>
        rw [got] at this
        cases this
      | some _ => rfl
    cases got : call.arguments.get other with
    | none => rfl
    | some _ => exact absurd (one other otherListed name listed (by rw [got]; rfl) some) apart
  · cases found

theorem stringAny_error {call : ToolCall} {aliases : List String} {error : Error}
    (missing : stringAny call aliases = .error error) :
    ∀ name ∈ aliases, (call.arguments.get name).bind Value.asStr = none := by
  rw [stringAny] at missing
  split at missing
  · cases missing
  · rename_i here
    exact fun name listed => findSome?_eq_none_iff.mp here name listed

section Agreement

variable {json : SerdeJson}

/-- What the JSON machine is to report of a value. -/
def ReportsAll (arguments : Value) (events : List StringFieldEvent) : Prop :=
  ∀ name, match (arguments.get name).bind Value.asStr with
    | some told => Reports name told events
    | none => events.filter (·.name = name) = []

theorem ReportsAll.silent {arguments : Value} {events : List StringFieldEvent}
    (all : ReportsAll arguments events) {aliases : List String}
    (absent : ∀ name ∈ aliases, (arguments.get name).bind Value.asStr = none) :
    events.filter (·.name ∈ aliases) = [] := by
  rw [filter_eq_nil_iff]
  intro event listed among
  have here := all event.name
  rw [absent event.name (of_decide_eq_true among), filter_eq_nil_iff] at here
  exact here event listed (decide_eq_true rfl)

theorem ReportsAll.one {arguments : Value} {events : List StringFieldEvent}
    (all : ReportsAll arguments events) {aliases : List String} {name text : String}
    (listed : name ∈ aliases) (this : (arguments.get name).bind Value.asStr = some text)
    (others : ∀ other ∈ aliases, other ≠ name → (arguments.get other).bind Value.asStr = none) :
    ∃ texts : List String, events.filter (·.name ∈ aliases) =
      texts.map (.delta name) ++ [.ended name] ∧ String.join texts = text := by
  have here := all name
  rw [this] at here
  obtain ⟨texts, split, joined⟩ := here
  refine ⟨texts, ?_, joined⟩
  rw [← split]
  refine filter_congr fun event inside => ?_
  by_cases same : event.name = name
  · rw [decide_eq_true same, decide_eq_true (same ▸ listed)]
  · rw [decide_eq_false same]
    refine decide_eq_false fun among => ?_
    have nothing := all event.name
    rw [others event.name among same, filter_eq_nil_iff] at nothing
    exact nothing event inside (decide_eq_true rfl)

/-- **The streamed card and the executed edit agree.** Whatever the chunks of the arguments, the stream is
read without an error, and reports of each member that is a string its text and one end, and nothing of
the others. Of a write with one spelling of its path and one of its content, the card shows the content that
`after_read` computes, and announces the path of the call. -/
theorem edit_card_agrees (documented : json.Documented) {text : String}
    {members : List (List Char × Tree)} (parsed : json.parse text = .ok (.object members))
    (distinct : (members.map Prod.fst).Nodup) {stream : List String}
    (split : String.join stream = text) :
    (∃ events last, (chunks json).run {} stream = .ok (events, last) ∧
      ∀ name, match ((json.value (.object members)).get name).bind Value.asStr with
        | some told => Reports name told events
        | none => events.filter (·.name = name) = []) ∧
    ∀ (call : ToolCall) (deltas : List (ToolCall × String)), deltas.map Prod.snd = stream →
      normalizedName call.name = "write" → call.arguments = json.value (.object members) →
      OneAlias call.arguments pathFields → OneAlias call.arguments contentFields →
      ∃ edit updates after, editPresentation call.name = some edit ∧
        (card json).run edit deltas = .ok (updates, after) ∧
        (∀ editNotebook result write, afterRead editNotebook call result = .ok write →
          contentOf updates = write.after) ∧
        pathsOf updates = (editPath call).toOption.toList := by
  obtain ⟨events, last, fed, all⟩ := feed_reports documented (documented.sound parsed) distinct
    (congrArg String.toList split)
  refine ⟨⟨events, last, fed, all⟩, fun call deltas pieces write whole onePath oneContent => ?_⟩
  have reports : ReportsAll call.arguments events := by
    rw [whole]
    exact all
  obtain ⟨updates, after, ran, shows⟩ := @card_shows json deltas
    { pathFields, contentFields } events last (by decide) (by rw [pieces]; exact fed)
  refine ⟨_, updates, after, by rw [editPresentation, if_pos write], ran, ?_, ?_⟩
  · intro editNotebook result edit computed
    obtain ⟨before, -, computed⟩ := except_bind_eq_ok.mp computed
    obtain ⟨content, here, rfl⟩ := except_bind_ok_eq.mp computed
    rw [editAfter, if_pos write] at here
    cases found : stringAny call contentFields with
    | error error =>
      rw [found] at here
      cases here
    | ok text =>
      rw [found] at here
      obtain rfl := Except.ok.inj here
      obtain ⟨name, listed, this, others⟩ := stringAny_ok oneContent found
      obtain ⟨texts, kept, joined⟩ := reports.one listed this others
      rw [← String.toList_inj, shows.content, kept, told_reports joined]
  · have notebook : ¬ normalizedName call.name = "editnotebook" := by
      rw [write]
      decide
    rw [editPath, if_neg notebook, shows.paths]
    cases found : stringAny call pathFields with
    | error error =>
      rw [reports.silent (stringAny_error found)]
      rfl
    | ok path =>
      obtain ⟨name, listed, this, others⟩ := stringAny_ok onePath found
      obtain ⟨texts, kept, joined⟩ := reports.one listed this others
      rw [kept, announced_reports joined]
      rfl

end Agreement

/-! ### A sample -/

def charOf (code : Nat) : Option Char := if code.isValidChar then some (Char.ofNat code) else none

/-- The character of an escape. -/
def readEscape : List Char → Option Char
  | '\\' :: letter :: rest =>
    if letter = 'u' then
      if rest.length = 4 ∧ rest.all isHexDigit = true then charOf (hexValue rest)
      else if rest = rest.take 4 ++ '\\' :: 'u' :: rest.drop 6 ∧ (rest.take 4).length = 4 ∧
          (rest.take 4).all isHexDigit = true ∧ isHighSurrogate (hexValue (rest.take 4)) = true ∧
          (rest.drop 6).length = 4 ∧ (rest.drop 6).all isHexDigit = true ∧
          isLowSurrogate (hexValue (rest.drop 6)) = true then
        charOf (surrogatePair (hexValue (rest.take 4)) (hexValue (rest.drop 6)))
      else none
    else if rest = [] then (shortEscapes.find? (·.1 = letter)).map (·.2) else none
  | _ => none

theorem charOf_eq_some {code : Nat} {character : Char} (value : charOf code = some character) :
    character.toNat = code := by
  rw [charOf] at value
  split at value
  · rename_i valid
    rw [← Option.some.inj value, Char.ofNat, dif_pos valid]
    rfl
  · cases value

theorem charOf_toNat (character : Char) : charOf character.toNat = some character := by
  rw [charOf, if_pos (show character.toNat.isValidChar from character.valid), Char.ofNat_toNat]

theorem readEscape_sound {escape : List Char} {character : Char}
    (read : readEscape escape = some character) : Escape escape character := by
  unfold readEscape at read
  split at read
  · rename_i letter rest
    split at read
    · rename_i unit
      subst unit
      split at read
      · rename_i single
        exact .unit single.1 single.2 (charOf_eq_some read)
      · split at read
        · rename_i double
          obtain ⟨split, four, hex, high, four', hex', low⟩ := double
          rw [split]
          exact .pair four hex high four' hex' low (charOf_eq_some read)
        · cases read
    · split at read
      · rename_i nothing
        subst nothing
        obtain ⟨short, found, rfl⟩ := Option.map_eq_some_iff.mp read
        have same : short.1 = letter := by
          have this := find?_some found
          exact of_decide_eq_true this
        exact .short (same ▸ mem_of_find?_eq_some found)
      · cases read
  · cases read

theorem readEscape_complete {escape : List Char} {character : Char} (denotes : Escape escape character) :
    readEscape escape = some character := by
  cases denotes with
  | short listed =>
    simp only [shortEscapes, mem_cons, Prod.mk.injEq, not_mem_nil, or_false] at listed
    rcases listed with ⟨rfl, rfl⟩ | ⟨rfl, rfl⟩ | ⟨rfl, rfl⟩ | ⟨rfl, rfl⟩ | ⟨rfl, rfl⟩ | ⟨rfl, rfl⟩ |
      ⟨rfl, rfl⟩ | ⟨rfl, rfl⟩ <;> rfl
  | unit four hex value => rw [readEscape, if_pos rfl, if_pos ⟨four, hex⟩, ← value, charOf_toNat]
  | @pair first second _ four hex high four' hex' low value =>
    have front : (first ++ '\\' :: 'u' :: second).take 4 = first := by simp [← four]
    have back : (first ++ '\\' :: 'u' :: second).drop 6 = second := by
      rw [drop_append, four, drop_eq_nil_of_le (by rw [four]; decide), nil_append]
      rfl
    have long : ¬ (first ++ '\\' :: 'u' :: second).length = 4 := by
      simp only [length_append, length_cons, four]
      omega
    rw [readEscape, if_pos rfl, if_neg (fun both => long both.1), front, back,
      if_pos ⟨rfl, four, hex, high, four', hex', low⟩, ← value, charOf_toNat]

def sampleText : String := "\x7b\"path\":\"a\",\"contents\":\"x\\r\\n\",\"size\":[1]\x7d"

def sampleMembers : List (List Char × Tree) :=
  [("path".toList, .string ['a']), ("contents".toList, .string ['x', '\r', '\n']),
    ("size".toList, .array [.number ['1']])]

/-- A `serde_json` for the sample text and for strings of one escape. -/
def sampleJson : SerdeJson where
  parse text :=
    if text = sampleText then .ok (.object sampleMembers)
    else
      let escape := (text.toList.drop 1).dropLast
      match readEscape escape with
      | some character =>
        if text.toList = '"' :: (escape ++ ['"']) then .ok (.string [character]) else .error "expected a string"
      | none => .error "expected an escape"
  number _ := .int 1

theorem sampleDocument : DocumentText (.object sampleMembers) sampleText.toList := by
  have plain : ∀ text : List Char, text.all isPlain = true → StringBody text text := by
    intro text all
    induction text with
    | nil => exact .nil
    | cons character text ih =>
      rw [all_cons, Bool.and_eq_true] at all
      exact .plain all.1 (ih all.2)
  have none : Blank [] := fun _ member => absurd member not_mem_nil
  have contents : StringBody ['x', '\\', 'r', '\\', 'n'] ['x', '\r', '\n'] :=
    .plain rfl (.escape (@Escape.short 'r' _ (by decide)) (.escape (@Escape.short 'n' _ (by decide)) .nil))
  have one : NumberText ['1'] := ⟨[], ['1'], [], [], rfl, .inl rfl, .inr ⟨⟨by decide, rfl⟩, by decide⟩,
    .inl rfl, .inl rfl⟩
  exact ⟨[], _, [], rfl, none, .object (.more none (plain "path".toList rfl) none none
    (.string (plain ['a'] rfl)) none (.more none (plain "contents".toList rfl) none none
    (.string contents) none (.one none (plain "size".toList rfl) none none
    (.array (.one none (.number one) none)) none))), none⟩

theorem sampleJson_documented : sampleJson.Documented where
  sound := by
    intro text tree parsed
    simp only [sampleJson] at parsed
    split at parsed
    · rename_i same
      rw [← Except.ok.inj parsed, same]
      exact sampleDocument
    · split at parsed
      · rename_i character read
        split at parsed
        · rename_i quoted
          rw [← Except.ok.inj parsed, quoted]
          refine ⟨[], _, [], (append_nil _).symm, nofun, .string ?_, nofun⟩
          have escaped := StringBody.escape (readEscape_sound read) .nil
          rwa [append_nil] at escaped
        · cases parsed
      · cases parsed
  escapes := by
    intro escape character denotes
    have other : String.ofList ('"' :: (escape ++ ['"'])) ≠ sampleText := by
      intro same
      have := congrArg (fun text => text.toList.head?) same
      rw [String.toList_ofList] at this
      cases this
    have inside : ((String.ofList ('"' :: (escape ++ ['"']))).toList.drop 1).dropLast = escape := by
      rw [String.toList_ofList]
      exact dropLast_concat
    simp only [sampleJson, if_neg other, inside, readEscape_complete denotes]
    rw [String.toList_ofList, if_pos rfl]

def sampleArguments : Value := sampleJson.value (.object sampleMembers)

def sampleWrite : ToolCall :=
  ⟨0, "call", "model", "Write", sampleText, sampleArguments, none⟩

theorem edit_card_agrees_sample :
    (∃ events last, (chunks sampleJson).run {} [sampleText] = .ok (events, last) ∧
      ∀ name, match ((sampleJson.value (.object sampleMembers)).get name).bind Value.asStr with
        | some told => Reports name told events
        | none => events.filter (·.name = name) = []) ∧
    ∃ edit updates after, editPresentation sampleWrite.name = some edit ∧
      (card sampleJson).run edit [(sampleWrite, sampleText)] = .ok (updates, after) ∧
      (∀ editNotebook result write, afterRead editNotebook sampleWrite result = .ok write →
        contentOf updates = write.after) ∧
      pathsOf updates = (editPath sampleWrite).toOption.toList := by
  have one : OneAlias sampleArguments pathFields ∧ OneAlias sampleArguments contentFields := by
    constructor <;> unfold OneAlias <;> decide +kernel
  have parsed : sampleJson.parse sampleText = .ok (.object sampleMembers) := rfl
  have split : String.join [sampleText] = sampleText := String.empty_append
  have both := edit_card_agrees sampleJson_documented parsed (by decide) split
  exact ⟨both.1, both.2 sampleWrite [(sampleWrite, sampleText)] rfl (by decide +kernel) rfl one.1 one.2⟩

end Byok
