/-
**The size gate of tool results.** `limit_tool_result_text_with` and what it calls, of
`server/src/model/tool_result_replay.rs`.

The parser and the printer of JSON are parameters, as are the spill and whether a file can be
removed. A loop that may go on for ever is counted in rounds.

* `truncateReplayText` — the beginning of a text before a notice.
* `limitToolResultTextWith` — the gate, with the file that it leaves.
* `limitToolResultTextWith_gated` — it ends, within its limit, and names the file that it leaves.
-/

import Byok.Model.ToolResultReplay

namespace Byok.Replay

open Library

/-! ### The beginning of a text -/

def trimStartMatches (text : String) (character : Char) : String :=
  String.ofList (text.toList.dropWhile (· = character))

def trimEndMatches (text : String) (character : Char) : String :=
  String.ofList (text.toList.reverse.dropWhile (· = character)).reverse

/-- The `notice` of `truncate_replay_text`. -/
def replayNotice (name : String) (limit shown original : Nat) (spill : Option String) : String :=
  "\n\n[truncated: " ++ name ++ " result exceeded " ++ toString limit ++ " bytes; showing " ++
    toString shown ++ " of " ++
    toString original ++
    match spill with
    | some path => " bytes; full result stored at: " ++ path ++ "]"
    | none => " bytes]"

/-- The loop of `truncate_replay_text`, in as many rounds. -/
def truncateReplayTextFrom (name content : String) (limit : Nat) (spill : Option String) :
    Nat → Nat → Option String
  | 0, _ => none
  | rounds + 1, shown =>
    let notice := replayNotice name limit shown (strLength content) spill
    if limit ≤ strLength notice then
      some <|
        match spill with
        | some _ => trimStartMatches notice '\n'
        | none => utf8Prefix content limit
    else
      let available := limit - strLength notice
      let kept := utf8Prefix content available
      if strLength kept = shown then some (trimEndMatches kept '\n' ++ notice)
      else truncateReplayTextFrom name content limit spill rounds (strLength kept)

/-- `truncate_replay_text`, in as many rounds. -/
def truncateReplayText (rounds : Nat) (name content : String) (limit : Nat)
    (spill : Option String) : Option String :=
  if strLength content ≤ limit then
    some content else truncateReplayTextFrom name content limit spill rounds limit

/-! ### The gate -/

def maySpill (name : String) : Bool := trim name ≠ "GenerateImage"

def replayLimit (name : String) : Option Nat :=
  let name := trim name
  if name = "GenerateImage" ∨ name = "WebSearch" then some (16 * kib)
  else if name = "Read" then some (64 * kib)
  else if name = "Shell" then some (128 * kib)
  else if name = "Grep" ∨ name = "Glob" then some (32 * kib)
  else if name ∈ ["PatchEdit", "PatchEditLines", "PatchEditSpan", "StrReplace"] then some (4 * kib)
  else if name ∈ ["Edit", "EditNotebook", "Write", "WebFetch"] then some (32 * kib)
  else if name ∈ ["CallMcpTool", "FetchMcpResource", "ListMcpResources", "GetMcpTools",
    "SembleSearch",
      "SembleFindRelated"] then some (32 * kib)
  else none

def editLimit (name : String) : Nat :=
  if trim name ∈ ["PatchEdit", "PatchEditLines", "PatchEditSpan", "StrReplace"] then
    4 * kib else 32 * kib

section Gate

-- `serde_json::from_str` and `serde_json::to_string`
variable (parse : String → Option Value) (print : Value → String)

def compactGenerateImage (content : String) : Option String :=
  (parse (trim content)).bind fun value =>
    let (value, changed) := replaceImageData value
    if changed then some (print value) else none

def compactShell (content : String) : Option String :=
  (parse (trim content)).bind fun value =>
    let (value, changed) := compactShellFields value
    if changed then some (print value) else none

/-- A text of the result that `compact_edit` looks for, under one of two keys. -/
def editText (success : Value) (key other : String) : Option String :=
  (((success.get key).or (success.get other)).bind Value.asStr).filter (· ≠ "")

/-- `Value::as_object`, as the object that it is. -/
def asObject (value : Value) : Option Value :=
  match value with
  | .object _ => some value
  | _ => none

/-- `compact_edit`, in as many rounds. -/
def compactEdit (rounds : Nat) (name content : String) : Option (Option String) :=
  match ((parse (trim content)).bind (·.get "success")).bind asObject with
  | none => some none
  | some success =>
    match editText success "diff_string" "diffString" with
    | some diff =>
      (truncateReplayText rounds name diff (editLimit name) none).map fun diff =>
        some (print (.object [("success", .object [("diff_string", .string diff)])]))
    | none =>
      match editText success "after_full_file_content" "afterFullFileContent" with
      | some after =>
        (truncateReplayText rounds name after (editLimit name) none).map fun after =>
          some (print (.object [("success", .object [("after_full_file_content", .string after)])]))
      | none => some none

/-- `compact_for_replay`, in as many rounds. -/
def compactForReplay (rounds : Nat) (name content : String) : Option (Option String) :=
  if trim name = "GenerateImage" then some (compactGenerateImage parse print content)
  else if trim name = "Shell" then some (compactShell parse print content)
  else if trim name ∈ ["PatchEdit", "PatchEditLines", "PatchEditSpan", "StrReplace", "Edit",
    "Write"] then
    compactEdit parse print rounds name content
  else some none

/-- What the gate gives: the text, and the file that it leaves. -/
structure Gated where
  text : String
  left : Option String
deriving DecidableEq

-- the spill, and whether `remove_file` removes a file
variable (spill : String → Option String) (removes : String → Bool)

/-- `limit_tool_result_text_with`, in as many rounds. -/
def limitToolResultTextWith (rounds : Nat) (name content : String) : Option Gated :=
  match replayLimit name with
  | none => some ⟨content, none⟩
  | some limit =>
    (compactForReplay parse print rounds name content).bind fun compacted =>
      let compacted := compacted.getD content
      if strLength compacted ≤ limit then
        if compacted = content ∨ maySpill name = false then some ⟨compacted, none⟩
        else
          match spill content with
          | none => some ⟨compacted, none⟩
          | some path =>
            let notice := "\n\n[full result stored at: " ++ path ++ "]"
            if strLength compacted + strLength notice ≤ limit then
              some ⟨compacted ++ notice, some path⟩
            else some ⟨compacted, if removes path then none else some path⟩
      else
        let path := if maySpill name then spill content else none
        (truncateReplayText rounds name compacted limit path).map fun text => ⟨text, path⟩

end Gate

/-! ### Where the loop ends -/

section Ends

variable {name content : String} {limit : Nat} {spill : Option String}

/-- What a notice costs but for the number of bytes that are shown. -/
def replayFrame (name : String) (limit original : Nat) (spill : Option String) : Nat :=
  strLength (replayNotice name limit 0 original spill) - 1

theorem strLength_replayNotice (name : String) (limit shown original : Nat)
    (spill : Option String) :
    strLength (replayNotice name limit shown original spill) =
      replayFrame name limit original spill + Settle.digits shown := by
  unfold replayFrame replayNotice
  have around (ending : String) :=
    strLength_around ("\n\n[truncated: " ++ name ++ " result exceeded " ++ toString limit ++
    " bytes; showing ") (" of " ++ toString original ++ ending) shown
  simp only [← String.append_assoc] at around
  exact around _

theorem replayFrame_le (name : String) (limit original : Nat) (spill : Option String) :
    replayFrame name limit original spill ≤
      strLength name + Settle.digits limit + Settle.digits original + strLength (spill.getD "")
        + 128 := by
  have first : strLength "\n\n[truncated: " = 14 := strLength_ofList _
  have second : strLength " result exceeded " = 17 := strLength_ofList _
  have third : strLength " bytes; showing " = 16 := strLength_ofList _
  have fourth : strLength " of " = 4 := strLength_ofList _
  have fifth : strLength " bytes; full result stored at: " = 31 := strLength_ofList _
  have sixth : strLength "]" = 1 := strLength_ofList _
  have seventh : strLength " bytes]" = 7 := strLength_ofList _
  have zero : Settle.digits 0 = 1 := rfl
  unfold replayFrame replayNotice
  cases spill with
  | none =>
    simp only [strLength_append, strLength_toString, first, second, third, fourth, seventh, zero]
    omega
  | some path =>
    simp only [strLength_append, strLength_toString, first, second, third, fourth, fifth, sixth,
      zero, Option.getD_some]
    omega

/-- The limits of the gate. -/
def limits : List Nat := [4 * kib, 16 * kib, 32 * kib, 64 * kib, 128 * kib]

theorem limits_wide : ∀ limit ∈ limits, Settle.digits limit ≤ 6 ∧ 4096 ≤ limit ∧
    10 ^ (Settle.digits limit - 1) + 2400 ≤ limit ∧ 1 < Settle.digits limit := by decide +kernel

theorem digits_steady {kept : Nat} (listed : limit ∈ limits) (near : limit ≤ kept + 2400)
    (le : kept ≤ limit) :
    Settle.digits kept = Settle.digits limit := by
  obtain ⟨-, -, wide, many⟩ := limits_wide limit listed
  have enough : Settle.digits limit - 1 < Settle.digits kept :=
    (Settle.lt_digits_iff (by omega)).mpr (by omega)
  have most := Settle.digits_mono le
  omega

/-- A text that names a file as a notice does. -/
def Names (path text : String) : Prop :=
  ∃ before, text = before ++ "full result stored at: " ++ path ++ "]"

theorem names_append {path text : String} (names : Names path text) (before : String) :
    Names path (before ++ text) := by
  obtain ⟨rest, rfl⟩ := names
  exact ⟨before ++ rest, by simp only [String.append_assoc]⟩

theorem names_replayNotice (name : String) (limit shown original : Nat) (path : String) :
    Names path (replayNotice name limit shown original (some path)) := by
  refine ⟨"\n\n[truncated: " ++ name ++ " result exceeded " ++ toString limit ++
    " bytes; showing " ++ toString shown ++
    " of " ++ toString original ++ " bytes; ", ?_⟩
  have parts : " bytes; full result stored at: " = " bytes; " ++
    "full result stored at: " := by decide
  unfold replayNotice
  rw [parts]
  simp only [String.append_assoc]

theorem strLength_trimEndMatches_le (text : String) (character : Char) :
    strLength (trimEndMatches text character) ≤ strLength text := by
  have split := List.takeWhile_append_dropWhile (p := (· = character)) (l := text.toList.reverse)
  have whole := congrArg Utf8.size split
  rw [Utf8.size_append, Utf8.size_reverse] at whole
  rw [trimEndMatches, strLength_ofList, Utf8.size_reverse, strLength]
  omega

/-- What a text is when it is cut: within its limit, and with the path in its notice. -/
structure Cut (limit : Nat) (spill : Option String) (text : String) : Prop where
  bounded : strLength text ≤ limit
  names : ∀ path, spill = some path → Names path text

/-- **The loop ends in its second round where names and paths are not very long.** -/
theorem truncateReplayTextFrom_cut (listed : limit ∈ limits) (named : strLength name ≤ 1024)
    (path : strLength (spill.getD "") < 1024) (small : strLength content < 2 ^ 64)
    (long : limit < strLength content) :
    ∃ text, (∀ more, truncateReplayTextFrom name content limit spill (more + 2) limit = some text) ∧
      Cut limit spill text := by
  obtain ⟨few, large, -, many⟩ := limits_wide limit listed
  have frame := replayFrame_le name limit (strLength content) spill
  have original : Settle.digits (strLength content) ≤ 20 :=
    (Settle.digits_le_iff (by decide)).mpr (by omega)
  -- the first round keeps a number of as many digits, and the second one the same
  have cost := strLength_replayNotice name limit limit (strLength content) spill
  set kept := utf8Prefix content
    (limit - strLength (replayNotice name limit limit (strLength content) spill)) with hkept
  have le := utf8Prefix_le content
    (limit - strLength (replayNotice name limit limit (strLength content) spill))
  have near : limit - strLength (replayNotice name limit limit (strLength content) spill) <
    strLength kept + 4 :=
    utf8Prefix_near (by omega)
  rw [← hkept] at le
  have digits : Settle.digits (strLength kept) = Settle.digits limit :=
    digits_steady listed (by omega) (by omega)
  have same := strLength_replayNotice name limit (strLength kept) (strLength content) spill
  rw [digits, ← cost] at same
  refine ⟨trimEndMatches kept '\n' ++ replayNotice name limit (strLength kept)
    (strLength content) spill, fun more => ?_,
    ?_, ?_⟩
  · have first : ¬ limit ≤ strLength (replayNotice name limit limit (strLength content)
      spill) := by omega
    have moves : strLength kept ≠ limit := by omega
    simp only [truncateReplayTextFrom, first, if_false, ← hkept, moves, same, if_true]
  · have trimmed := strLength_trimEndMatches_le kept '\n'
    rw [strLength_append]
    omega
  · rintro path rfl
    exact names_append (names_replayNotice ..) _

theorem truncateReplayText_cut (listed : limit ∈ limits) (named : strLength name ≤ 1024)
    (path : strLength (spill.getD "") < 1024) (small : strLength content < 2 ^ 64) :
    ∃ text, (∀ more, truncateReplayText (more + 2) name content limit spill = some text) ∧
      (limit < strLength content → Cut limit spill text) := by
  by_cases short : strLength content ≤ limit
  · exact ⟨content, fun _ => if_pos short, fun long => absurd short (Nat.not_le.mpr long)⟩
  · obtain ⟨text, ended, cut⟩ :=
    truncateReplayTextFrom_cut listed named path small (Nat.not_le.mp short)
    exact ⟨text, fun more => by rw [truncateReplayText, if_neg short, ended], fun _ => cut⟩

end Ends

/-! ### What the gate is for -/

section Gated

variable {parse : String → Option Value} {print : Value → String} {name content : String}

/-- The texts of a result and what its compaction gives have the length of a `String`. -/
structure Sized (parse : String → Option Value) (print : Value → String) (name content : String) :
    Prop where
  whole : strLength content < 2 ^ 64
  parsed : ∀ value, parse (trim content) = some value → ∀ field ∈ value.texts, strLength field.2 <
    2 ^ 64
  compacted : ∀ rounds compacted, compactForReplay parse print rounds name content =
    some (some compacted) →
    strLength compacted < 2 ^ 64

theorem editLimit_listed (name : String) : editLimit name ∈ limits := by
  unfold editLimit
  split <;> decide

theorem replayLimit_listed {limit : Nat} (limited : replayLimit name = some limit) :
    limit ∈ limits := by
  have every : replayLimit name ∈ none :: limits.map some := by
    simp only [replayLimit]
    split_ifs <;> decide
  simpa [limited] using every

theorem editText_texts {value success : Value} {key other text : String}
    (found : (value.get "success").bind asObject = some success)
    (read : editText success key other = some text) :
    ∃ field ∈ value.texts, field.2 = text := by
  obtain ⟨child, got, object⟩ := Option.bind_eq_some_iff.mp found
  obtain ⟨read, -⟩ := Option.filter_eq_some_iff.mp read
  obtain ⟨leaf, chosen, string⟩ := Option.bind_eq_some_iff.mp read
  obtain rfl : leaf = .string text := by
    cases leaf <;> simp_all [Value.asStr]
  obtain ⟨fields, rfl⟩ : ∃ fields, child = .object fields := by
    cases child with
    | object fields => exact ⟨fields, rfl⟩
    | null | bool | number | string | array => cases object
  obtain rfl : Value.object fields = success := Option.some.inj object
  rcases Option.or_eq_some_iff.mp chosen with first | ⟨-, second⟩
  · exact ⟨(key, text), Value.texts_of_get got _ (Value.texts_of_get first _ List.mem_cons_self),
      rfl⟩
  · exact ⟨(other, text), Value.texts_of_get got _ (Value.texts_of_get second _ List.mem_cons_self),
      rfl⟩

theorem compactEdit_ends (sized : Sized parse print name content) (named : strLength name ≤ 1024) :
    ∃ compacted, ∀ more, compactEdit parse print (more + 2) name content = some compacted := by
  unfold compactEdit
  cases found : ((parse (trim content)).bind (·.get "success")).bind asObject with
  | none => exact ⟨none, fun _ => rfl⟩
  | some success =>
    obtain ⟨child, inner, object⟩ := Option.bind_eq_some_iff.mp found
    obtain ⟨value, parsed, got⟩ := Option.bind_eq_some_iff.mp inner
    have cut (key other text : String) (read : editText success key other = some text) :
        ∃ cut, ∀ more, truncateReplayText (more + 2) name text (editLimit name) none =
          some cut := by
      obtain ⟨field, listed, rfl⟩ := editText_texts (by rw [got]; exact object) read
      obtain ⟨cut, ended, -⟩ := truncateReplayText_cut (editLimit_listed name) named
        (show strLength ((none : Option String).getD "") < 1024 by decide)
        (sized.parsed value parsed field listed)
      exact ⟨cut, ended⟩
    cases diff : editText success "diff_string" "diffString" with
    | some text =>
      obtain ⟨short, ended⟩ := cut _ _ _ diff
      exact ⟨some (print (.object [("success", .object [("diff_string", .string short)])])),
        fun more => by
        simp only [diff, ended, Option.map_some]⟩
    | none =>
      cases after : editText success "after_full_file_content" "afterFullFileContent" with
      | some text =>
        obtain ⟨short, ended⟩ := cut _ _ _ after
        exact ⟨some (print (.object
          [("success", .object [("after_full_file_content", .string short)])])), fun more => by
          simp only [diff, after, ended, Option.map_some]⟩
      | none => exact ⟨none, fun _ => by simp only [diff, after]⟩

theorem compactForReplay_ends (sized : Sized parse print name content)
    (named : strLength name ≤ 1024) :
    ∃ compacted, ∀ more, compactForReplay parse print (more + 2) name content = some compacted := by
  unfold compactForReplay
  split_ifs
  · exact ⟨_, fun _ => rfl⟩
  · exact ⟨_, fun _ => rfl⟩
  · exact compactEdit_ends sized named
  · exact ⟨_, fun _ => rfl⟩

section Outcome

variable {spill : String → Option String} {removes : String → Bool} {limit : Nat}

/-- What the gate is for: the text is within the limit; it is the content where that fits and its
compaction changes nothing; a file that is left is named, unless it could not be removed; and where
none is left, the text is the one without a spill. -/
structure Outcome (parse : String → Option Value) (print : Value → String)
    (spill : String → Option String)
    (removes : String → Bool) (limit rounds : Nat) (name content : String) (gated : Gated) :
    Prop where
  bounded : strLength gated.text ≤ limit
  unchanged : strLength content ≤ limit →
    (∀ compacted, compactForReplay parse print rounds name content = some (some compacted) →
      compacted = content) →
      gated.text = content
  left : ∀ path, gated.left = some path → spill content = some path ∧
    (Names path gated.text ∨ removes path = false)
  none : gated.left = none → limitToolResultTextWith parse print (fun _ => none)
    removes rounds name content = some gated

/-- **The gate ends, and is a gate.** -/
theorem limitToolResultTextWith_gated (limited : replayLimit name = some limit)
    (named : strLength name ≤ 1024)
    (sized : Sized parse print name content) (paths : ∀ path, spill content = some path →
      strLength path < 1024) :
    ∃ rounds gated, limitToolResultTextWith parse print spill removes rounds name content =
      some gated ∧
      Outcome parse print spill removes limit rounds name content gated := by
  obtain ⟨compaction, ends⟩ := compactForReplay_ends sized named
  have compacted := ends 0
  have small : strLength (compaction.getD content) < 2 ^ 64 := by
    cases compaction with
    | none => exact sized.whole
    | some text => exact sized.compacted 2 text compacted
  have same : (∀ text, some compaction = some (some text) → text = content) →
    compaction.getD content = content := by
    intro unchanged
    cases compaction with
    | none => rfl
    | some text => exact unchanged text rfl
  by_cases fits : strLength (compaction.getD content) ≤ limit
  · by_cases kept : compaction.getD content = content ∨ maySpill name = false
    · refine ⟨2, ⟨compaction.getD content, none⟩, ?_, fits, ?_, (fun _ left => by cases left),
        fun _ => ?_⟩
      · simp only [limitToolResultTextWith, limited, compacted, Option.bind_some, fits, kept,
          if_true]
      · rw [compacted]
        exact fun _ unchanged => same unchanged
      · simp only [limitToolResultTextWith, limited, compacted, Option.bind_some, fits, kept,
          if_true]
    · have plain : limitToolResultTextWith parse print (fun _ => none) removes 2 name content =
          some ⟨compaction.getD content, none⟩ := by
        simp only [limitToolResultTextWith, limited, compacted, Option.bind_some, fits, kept,
          if_true, if_false]
      have differs : ¬ ∀ text, compactForReplay parse print 2 name content = some (some text) →
        text = content := by
        rw [compacted]
        exact fun unchanged => kept (.inl (same unchanged))
      cases spilled : spill content with
      | none =>
        refine ⟨2, ⟨compaction.getD content, none⟩, ?_, fits,
          fun _ unchanged => absurd unchanged differs,
          (fun _ left => by cases left), fun _ => plain⟩
        simp only [limitToolResultTextWith, limited, compacted, Option.bind_some, fits, kept,
          spilled, if_true, if_false]
      | some path =>
        by_cases room : strLength (compaction.getD content) + strLength
          ("\n\n[full result stored at: " ++ path ++ "]") ≤ limit
        · refine ⟨2, ⟨compaction.getD content ++ ("\n\n[full result stored at: " ++ path ++ "]"),
            some path⟩, ?_, ?_,
            fun _ unchanged => absurd unchanged differs, fun other left => ?_,
              fun left => by cases left⟩
          · simp only [limitToolResultTextWith, limited, compacted, Option.bind_some, fits, kept,
              spilled, room, if_true,
              if_false]
          · rwa [strLength_append]
          · obtain rfl := Option.some.inj left
            refine ⟨spilled, .inl ⟨compaction.getD content ++ "\n\n[", ?_⟩⟩
            have parts : "\n\n[full result stored at: " = "\n\n[" ++
              "full result stored at: " := by decide
            rw [parts]
            simp only [String.append_assoc]
        · refine ⟨2, ⟨compaction.getD content, if removes path then none else some path⟩, ?_, fits,
            fun _ unchanged => absurd unchanged differs, fun other left => ?_, fun left => ?_⟩
          · simp only [limitToolResultTextWith, limited, compacted, Option.bind_some, fits, kept,
              spilled, room, if_true,
              if_false]
          · cases gone : removes path <;> simp_all
          · cases gone : removes path <;> simp_all
  · -- the path is only there where the tool may spill
    have short : strLength ((if maySpill name then spill content else none).getD "") < 1024 := by
      cases spilled : (if maySpill name then spill content else none) with
      | none => decide
      | some path => exact paths path (by split at spilled <;> simp_all)
    obtain ⟨text, ended, cut⟩ :=
      truncateReplayText_cut (replayLimit_listed limited) named short small
    obtain ⟨bounded, names⟩ := cut (Nat.not_le.mp fits)
    refine ⟨2, ⟨text, if maySpill name then spill content else none⟩, ?_, bounded,
      fun whole unchanged => ?_,
      fun path left => ⟨by split at left <;> simp_all, .inl (names path left)⟩, fun left => ?_⟩
    · have ended := ended 0
      simp only [limitToolResultTextWith, limited, compacted, Option.bind_some, fits, if_false,
        ended, Option.map_some]
    · rw [compacted] at unchanged
      rw [same unchanged] at fits
      exact absurd whole fits
    · have left : (if maySpill name then spill content else none) = none := left
      have ended := ended 0
      rw [left] at ended
      simp only [limitToolResultTextWith, limited, compacted, Option.bind_some, fits, if_false,
        left, ite_self, ended,
        Option.map_some]

/-- A result over the limit of its tool. -/
def sampleListing : String := String.ofList (List.replicate 70000 'x')

theorem strLength_sampleListing : strLength sampleListing = 70000 :=
  strLength_replicate 'x' (by decide) 70000

theorem limitToolResultTextWith_gated_read : ∃ rounds gated,
    limitToolResultTextWith (fun _ => none) (fun _ => "") (fun _ => some "/data/tool-results/1.txt")
      (fun _ => true) rounds
        "Read" sampleListing = some gated ∧
      Outcome (fun _ => none) (fun _ => "") (fun _ => some "/data/tool-results/1.txt")
        (fun _ => true) (64 * kib) rounds
        "Read" sampleListing gated :=
  limitToolResultTextWith_gated (by decide) (by decide +kernel)
    ⟨by rw [strLength_sampleListing]; decide, (fun _ parsed => nomatch parsed),
      fun rounds compacted ended => by
      have ended : some none = some (some compacted) := ended
      cases Option.some.inj ended⟩
    (by rintro path ⟨⟩; decide +kernel)

end Outcome

/-! ### A file that cannot be removed -/

section Unremoved

variable (diff : String)

/-- The result of an edit with this diff. -/
def editResult : String :=
  "\x7b\"success\":\x7b\"diff_string\":\"" ++ diff ++ "\",\"lines_added\":1\x7d\x7d"

/-- What its compaction keeps. -/
def compactedResult : String := "\x7b\"success\":\x7b\"diff_string\":\"" ++ diff ++ "\"\x7d\x7d"

/-- The parser, at the result of the edit. -/
def parseEdit (text : String) : Option Value :=
  if text = trim (editResult diff) then
    some (.object [("success", .object [("diff_string", .string diff),
      ("lines_added", .number (.int 1))])])
  else none

/-- The printer, at its compaction. -/
def printEdit (value : Value) : String :=
  if value = .object [("success", .object [("diff_string", .string diff)])] then
    compactedResult diff else ""

variable {diff}

theorem compactForReplay_edit (nonempty : diff ≠ "") (small : strLength diff ≤ 4 * kib)
    (rounds : Nat) :
    compactForReplay (parseEdit diff) (printEdit diff) rounds "PatchEdit" (editResult diff) =
      some (some (compactedResult diff)) := by
  have named : trim "PatchEdit" = "PatchEdit" := by decide
  have limit : editLimit "PatchEdit" = 4 * kib := by decide
  have whole : truncateReplayText rounds "PatchEdit" diff (4 * kib) none = some diff := if_pos small
  have edits : compactEdit (parseEdit diff) (printEdit diff) rounds "PatchEdit" (editResult diff) =
      some (some (compactedResult diff)) := by
    have text : editText (.object [("diff_string", .string diff),
      ("lines_added", .number (.int 1))]) "diff_string"
        "diffString" = some diff := by
      simp [editText, Value.get, Value.asStr, Option.filter, nonempty]
    have found : ((parseEdit diff (trim (editResult diff))).bind (·.get "success")).bind asObject =
        some (.object [("diff_string", .string diff), ("lines_added", .number (.int 1))]) := by
      simp [parseEdit, Value.get, asObject]
    simp only [compactEdit, found, text, limit, whole, Option.map_some, printEdit, if_true]
  simp [compactForReplay, named, edits]

/-- The compaction fits, and the notice beside it does not: the file is neither named nor
removed. -/
theorem unremoved (length : strLength diff = 4050) (rounds : Nat) :
    limitToolResultTextWith (parseEdit diff) (printEdit diff)
      (fun _ => some "/data/tool-results/1.txt") (fun _ => false)
      rounds "PatchEdit" (editResult diff) = some ⟨compactedResult diff,
        some "/data/tool-results/1.txt"⟩ := by
  have limited : replayLimit "PatchEdit" = some (4 * kib) := by decide
  have spills : maySpill "PatchEdit" = true := by decide
  have nonempty : diff ≠ "" := by
    rintro rfl
    cases length
  have first : strLength "\x7b\"success\":\x7b\"diff_string\":\"" = 27 := strLength_ofList _
  have compactedLength : strLength (compactedResult diff) = 4080 := by
    have last : strLength "\"\x7d\x7d" = 3 := strLength_ofList _
    unfold compactedResult
    simp only [strLength_append, first, last, length]
  have editLength : strLength (editResult diff) = 4096 := by
    have last : strLength "\",\"lines_added\":1\x7d\x7d" = 19 := strLength_ofList _
    unfold editResult
    simp only [strLength_append, first, last, length]
  have differs : compactedResult diff ≠ editResult diff := fun same => by
    rw [same, editLength] at compactedLength
    cases compactedLength
  have fits : strLength (compactedResult diff) ≤ 4 * kib := by rw [compactedLength]; decide
  have room : ¬ strLength (compactedResult diff) +
      strLength ("\n\n[full result stored at: " ++ "/data/tool-results/1.txt" ++ "]") ≤
        4 * kib := by
    rw [compactedLength]
    decide +kernel
  have compacted := compactForReplay_edit nonempty (by rw [length]; decide) rounds
  simp only [limitToolResultTextWith, limited, compacted, Option.bind_some, Option.getD_some, fits,
    differs, spills, room,
    Bool.true_eq_false, or_self, Bool.false_eq_true, if_true, if_false]

theorem compactedResult_unnamed (clean : '/' ∉ diff.toList) (before after : String) :
    compactedResult diff ≠ before ++ "/data/tool-results/1.txt" ++ after := by
  intro same
  have listed : '/' ∈ (compactedResult diff).toList := by
    rw [same]
    simp
  unfold compactedResult at listed
  simp [clean] at listed

end Unremoved

/-- The result of an edit whose spill cannot be removed: the path that is left stands nowhere in the
text. -/
theorem limitToolResultTextWith_unremoved :
    replayLimit "PatchEdit" = some (4 * kib) ∧
    ∃ diff, ∀ rounds, ∃ gated,
      limitToolResultTextWith (parseEdit diff) (printEdit diff)
        (fun _ => some "/data/tool-results/1.txt") (fun _ => false)
        rounds "PatchEdit" (editResult diff) = some gated ∧
      gated.left = some "/data/tool-results/1.txt" ∧
      ∀ before after, gated.text ≠ before ++ "/data/tool-results/1.txt" ++ after := by
  refine ⟨by decide, String.ofList (List.replicate 4050 'x'), fun rounds =>
    ⟨_, unremoved (strLength_replicate 'x' (by decide) 4050) rounds, rfl,
      compactedResult_unnamed ?_⟩⟩
  rw [String.toList_ofList, List.mem_replicate]
  exact fun listed => absurd listed.2 (by decide)

end Gated

end Byok.Replay
