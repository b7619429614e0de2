/-
**The context breakdown adds up.** `server/src/cursor/services/usage.rs`.

* `measureRuntime_spent` — a runtime text is measured whole: each of its characters counts in one category.
* `measureMessages_eq` — a cache changes no measure.
* `fitSpecialEstimates_sum` — what is scaled down is scaled down to what was used.
* `breakdown_adds_up` — the estimates of all categories are the tokens that were used, and no counter overflows.
-/

import Byok.Cursor.Services.Usage
import Byok.Library.Fallible

namespace Byok.Cursor.Services

open Library List

/-! ### Counters -/

theorem addU64_ok {left right : Nat} (fits : left + right ≤ u64Max) : addU64 left right = .ok (left + right) :=
  if_pos fits

/-- The size of a text in bytes. -/
def utf8Length (text : List Char) : Nat := (text.map Char.utf8Size).sum

/-- What a text adds to `token_units`. -/
def unitsOfText (text : List Char) : Nat := (text.map Measure.unitsOf).sum

theorem utf8Length_append (first second : List Char) :
    utf8Length (first ++ second) = utf8Length first + utf8Length second := by
  rw [utf8Length, map_append, sum_append]
  rfl

theorem utf16Length_append (first second : List Char) :
    utf16Length (first ++ second) = utf16Length first + utf16Length second := by
  rw [utf16Length, map_append, sum_append]
  rfl

theorem character_cost (character : Char) :
    lenUtf16 character ≤ character.utf8Size ∧ Measure.unitsOf character ≤ 275 * character.utf8Size := by
  have size : character.utf8Size = if character.toNat ≤ 0x7F then 1 else if character.toNat ≤ 0x7FF then 2 else
      if character.toNat ≤ 0xFFFF then 3 else 4 := rfl
  rw [size, Measure.unitsOf, lenUtf16]
  split_ifs <;> omega

theorem text_cost (text : List Char) :
    utf16Length text ≤ utf8Length text ∧ unitsOfText text ≤ 275 * utf8Length text := by
  induction text with
  | nil => exact ⟨Nat.le_refl _, Nat.le_refl _⟩
  | cons character text ih =>
    have first := character_cost character
    simp only [utf16Length, utf8Length, unitsOfText, map_cons, sum_cons] at ih ⊢
    omega

theorem units_foldlM {text : List Char} {units : Nat} (fits : units + unitsOfText text ≤ u64Max) :
    text.foldlM (fun units character => addU64 units (Measure.unitsOf character)) units =
      .ok (units + unitsOfText text) := by
  induction text generalizing units with
  | nil => rfl
  | cons character text ih =>
    rw [unitsOfText, map_cons, sum_cons, ← Nat.add_assoc] at fits
    have first : units + Measure.unitsOf character ≤ u64Max := Nat.le_trans (Nat.le_add_right _ _) fits
    rw [foldlM_cons, addU64_ok first, except_ok_bind, ih fits, unitsOfText, unitsOfText, map_cons,
      sum_cons, Nat.add_assoc]

theorem Measure.add_ok {measure : Measure} {text : List Char}
    (characters : measure.characters + utf16Length text ≤ u64Max)
    (units : measure.tokenUnits + unitsOfText text ≤ u64Max) :
    measure.add text = .ok ⟨measure.characters + utf16Length text, measure.tokenUnits + unitsOfText text⟩ := by
  have own : 0 + unitsOfText text ≤ u64Max := by omega
  rw [Measure.add, addU64_ok characters, except_ok_bind, units_foldlM own, except_ok_bind, Nat.zero_add,
    addU64_ok units]
  rfl

/-! ### What was measured -/

namespace Measures

/-- The characters of all categories. -/
def characters (measures : Measures) : Nat := sumOver Category.all fun category => (measures category).characters

def tokenUnits (measures : Measures) : Nat := sumOver Category.all fun category => (measures category).tokenUnits

end Measures

theorem mem_all (category : Category) : category ∈ Category.all := by
  cases category <;> decide

theorem all_nodup : Category.all.Nodup := by decide

/-- The measures of texts with so many bytes. -/
structure Spent (measures : Measures) (bytes : Nat) : Prop where
  characters : measures.characters ≤ bytes
  tokenUnits : measures.tokenUnits ≤ 275 * bytes

theorem spent_default : Spent .default 0 := ⟨Nat.le_refl _, Nat.le_refl _⟩

theorem sumOver_measure {measures : Measures} {category : Category} {after : Measure} (field : Measure → Nat)
    {more : Nat} (grown : field after = field (measures category) + more) :
    sumOver Category.all (fun other => field (Function.update measures category after other)) =
      sumOver Category.all (fun other => field (measures other)) + more := by
  rw [← sumOver_update all_nodup (mem_all category) (fun other => field (measures other)) more, ← grown]
  refine sumOver_congr fun other _ => ?_
  exact Function.apply_update (fun _ => field) measures category after other

/-- **A text is measured**, in one category. -/
theorem addTo_spent {measures : Measures} {bytes : Nat} (spent : Spent measures bytes) (category : Category)
    {text : List Char} (room : bytes + utf8Length text ≤ u32Max) :
    ∃ after, measures.addTo category text = .ok after ∧ Spent after (bytes + utf8Length text) ∧
      after.characters = measures.characters + utf16Length text := by
  have cost := text_cost text
  have characters := le_sumOver (mem_all category) fun other => (measures other).characters
  have units := le_sumOver (mem_all category) fun other => (measures other).tokenUnits
  have spentCharacters := spent.characters
  have spentUnits := spent.tokenUnits
  unfold Measures.characters at spentCharacters
  unfold Measures.tokenUnits at spentUnits
  unfold u32Max at room
  have added : (measures category).add text = .ok ⟨(measures category).characters + utf16Length text,
      (measures category).tokenUnits + unitsOfText text⟩ := by
    apply Measure.add_ok <;> unfold u64Max <;> omega
  refine ⟨_, by rw [Measures.addTo, added]; rfl, ⟨?_, ?_⟩, ?_⟩
  · rw [Measures.characters, sumOver_measure Measure.characters rfl]
    omega
  · rw [Measures.tokenUnits, sumOver_measure Measure.tokenUnits rfl]
    omega
  · exact sumOver_measure Measure.characters rfl

/-! ### Runtime texts -/

/-- A range that lies within a text. -/
structure TagRange.Within (range : TagRange) (length : Nat) : Prop where
  ordered : range.start ≤ range.stop
  bounded : range.stop ≤ length

theorem find_le {pattern text : List Char} {index : Nat} (found : find pattern text = some index) :
    index + pattern.length ≤ text.length := by
  obtain ⟨bound, starts, -⟩ := findIdx?_eq_some_iff_getElem.mp found
  rw [length_tails] at bound
  rw [getElem_tails] at starts
  have fits := (List.isPrefixOf_iff_prefix.mp starts).length_le
  rw [length_drop] at fits
  omega

theorem collectFrom_within {opening closing : List Char} {category : Category} (cursor : Nat) (rest : List Char) :
    ∀ range ∈ collectFrom opening closing category cursor rest, range.Within (cursor + rest.length) := by
  fun_induction collectFrom opening closing category cursor rest with
  | case1 => exact fun _ => nofun
  | case2 => exact fun _ => nofun
  | case3 => exact fun _ => nofun
  | case4 cursor rest start found offset opened openEnd relativeEnd closed stop ih =>
    have fits := find_le closed
    have starts := (find_lt opened (cons_ne_nil _ _)).2
    rw [length_drop] at fits starts
    intro range member
    rcases mem_cons.mp member with rfl | later
    · constructor
      · show cursor + start ≤ cursor + stop
        omega
      · show cursor + stop ≤ cursor + rest.length
        omega
    · have within := ih range later
      rw [length_drop] at within
      exact ⟨within.ordered, within.bounded.trans (by omega)⟩

theorem tagRanges_within (text : List Char) : ∀ range ∈ tagRanges text, range.Within text.length := by
  intro range member
  have each (tag : String) (category : Category) :
      ∀ range ∈ collectRanges text tag category, range.Within text.length := by
    have within := @collectFrom_within ("<" ++ tag).toList ("</" ++ tag ++ ">").toList category 0 text
    rwa [Nat.zero_add] at within
  rw [tagRanges, mem_mergeSort] at member
  simp only [mem_append] at member
  rcases member with (((((member | member) | member) | member) | member) | member) | member <;>
    exact each _ _ range member

theorem slice_ok {text : List Char} {start stop : Nat} (ordered : start ≤ stop) (bounded : stop ≤ text.length) :
    slice text start stop = .ok ((text.drop start).take (stop - start)) := if_pos ⟨ordered, bounded⟩

theorem take_slice (text : List Char) {start stop : Nat} (ordered : start ≤ stop) :
    text.take stop = text.take start ++ (text.drop start).take (stop - start) := by
  rw [← take_add, Nat.add_sub_cancel' ordered]

theorem utf8Length_take_le (text : List Char) (count : Nat) : utf8Length (text.take count) ≤ utf8Length text := by
  have whole := congrArg utf8Length (take_append_drop count text)
  rw [utf8Length_append] at whole
  omega

/-- What is measured when the loop stands at `cursor`: the text up to there. -/
structure Measured (text : List Char) (start : Measures) (bytes cursor : Nat) (measures : Measures) : Prop where
  bounded : cursor ≤ text.length
  spent : Spent measures (bytes + utf8Length (text.take cursor))
  characters : measures.characters = start.characters + utf16Length (text.take cursor)

theorem Measured.next {text : List Char} {start measures : Measures} {bytes cursor stop : Nat}
    (measured : Measured text start bytes cursor measures) (ordered : cursor ≤ stop) (bounded : stop ≤ text.length)
    (room : bytes + utf8Length text ≤ u32Max) (category : Category) :
    ∃ after, measures.addTo category ((text.drop cursor).take (stop - cursor)) = .ok after ∧
      Measured text start bytes stop after := by
  have longer := take_slice text ordered
  have fits := utf8Length_take_le text stop
  have bytesOf := congrArg utf8Length longer
  have charactersOf := congrArg utf16Length longer
  rw [utf8Length_append] at bytesOf
  rw [utf16Length_append] at charactersOf
  have room :
      bytes + utf8Length (text.take cursor) + utf8Length ((text.drop cursor).take (stop - cursor)) ≤ u32Max := by omega
  obtain ⟨after, added, spent, characters⟩ := addTo_spent measured.spent category room
  refine ⟨after, added, bounded, ?_, ?_⟩
  · rwa [Nat.add_assoc, ← bytesOf] at spent
  · rw [characters, measured.characters, charactersOf, Nat.add_assoc]

theorem measureRange_measured {text : List Char} {start : Measures} {bytes : Nat} {state : Nat × Measures}
    (measured : Measured text start bytes state.1 state.2) {range : TagRange} (within : range.Within text.length)
    (room : bytes + utf8Length text ≤ u32Max) :
    ∃ after, measureRange text state range = .ok after ∧ Measured text start bytes after.1 after.2 := by
  unfold measureRange
  by_cases skipped : range.start < state.1
  · rw [if_pos skipped]
    exact ⟨state, rfl, measured⟩
  · rw [if_neg skipped]
    have ahead := Nat.le_of_not_lt skipped
    have inside := within.ordered.trans within.bounded
    obtain ⟨between, added, first⟩ := measured.next ahead inside room .conversation
    obtain ⟨after, more, second⟩ := first.next within.ordered within.bounded room range.category
    refine ⟨(range.stop, after), ?_, second⟩
    rw [slice_ok ahead inside, except_ok_bind, added, except_ok_bind, slice_ok within.ordered within.bounded,
      except_ok_bind, more]
    rfl

theorem foldlM_measured {text : List Char} {start : Measures} {bytes : Nat} (room : bytes + utf8Length text ≤ u32Max)
    {ranges : List TagRange} (within : ∀ range ∈ ranges, range.Within text.length) {state : Nat × Measures}
    (measured : Measured text start bytes state.1 state.2) :
    ∃ after, ranges.foldlM (measureRange text) state = .ok after ∧ Measured text start bytes after.1 after.2 := by
  induction ranges generalizing state with
  | nil => exact ⟨state, rfl, measured⟩
  | cons range ranges ih =>
    obtain ⟨middle, first, held⟩ := measureRange_measured measured (within range mem_cons_self) room
    rw [foldlM_cons, first, except_ok_bind]
    exact ih (fun other member => within other (mem_cons_of_mem _ member)) held

/-- **A runtime text is measured whole**, whatever its tags are. -/
theorem measureRuntime_spent {measures : Measures} {bytes : Nat} (spent : Spent measures bytes) {text : List Char}
    (room : bytes + utf8Length text ≤ u32Max) :
    ∃ after, measureRuntime text measures = .ok after ∧ Spent after (bytes + utf8Length text) ∧
      after.characters = measures.characters + utf16Length text := by
  have begins : Measured text measures bytes 0 measures := ⟨Nat.zero_le _, spent, rfl⟩
  obtain ⟨⟨cursor, middle⟩, ran, measured⟩ := @foldlM_measured text measures bytes room _ (tagRanges_within text)
    (0, measures) begins
  obtain ⟨after, added, whole⟩ := measured.next measured.bounded (Nat.le_refl _) room .conversation
  refine ⟨after, ?_, ?_, ?_⟩
  · rw [measureRuntime, ran, except_ok_bind]
    show (slice text cursor text.length >>= fun rest => middle.addTo .conversation rest) = _
    rw [slice_ok measured.bounded (Nat.le_refl _), except_ok_bind, added]
  · simpa using whole.spent
  · simpa using whole.characters

/-! ### Messages -/

section

variable (encoder : Encoder)

/-- The texts of an encoding, when there is one. -/
def encodedBytes (text : Except Error String) : Nat :=
  match text with
  | .ok text => utf8Length text.toList
  | .error _ => 0

def partBytes : ContentPart → Nat
  | .text text => utf8Length text.toList
  | .image _ _ => 0

/-- The bytes of the texts of a message that are measured. -/
def messageBytes (message : CanonicalMessage) : Nat :=
  match message.content with
  | .parts parts => (parts.map partBytes).sum
  | .assistant text thinking _ _ toolCalls =>
    utf8Length text.toList + utf8Length thinking.toList + encodedBytes (encoder.toolCalls toolCalls)
  | .toolResult result => encodedBytes (encoder.toolResult (ToolResultContent.written result))

/-- The texts that are measured of a message can be encoded. -/
def Encodes (message : CanonicalMessage) : Prop :=
  match message.content with
  | .parts _ => True
  | .assistant _ _ _ _ toolCalls => ∃ text, encoder.toolCalls toolCalls = .ok text
  | .toolResult result => ∃ text, encoder.toolResult (ToolResultContent.written result) = .ok text

/-- A step that measures some texts, or fails where one of them cannot be encoded. -/
def Measures.Ends (encodes : Prop) (result : Except Fault Measures) (bytes : Nat) : Prop :=
  (∃ after, result = .ok after ∧ Spent after bytes) ∨ ¬ encodes ∧ ∃ error, result = .error (.failed error)

variable {encoder}

theorem encoded_spent {measures : Measures} {bytes : Nat} (spent : Spent measures bytes) (category : Category)
    {text : Except Error String} (room : bytes + encodedBytes text ≤ u32Max) :
    Measures.Ends (∃ encoding, text = .ok encoding) (encoded text >>= measures.addTo category)
      (bytes + encodedBytes text) := by
  cases text with
  | ok text =>
    obtain ⟨after, added, spent, -⟩ := addTo_spent spent category room
    exact .inl ⟨after, added, spent⟩
  | error error => exact .inr ⟨nofun, error, rfl⟩

theorem parts_spent {origin : Origin} {parts : List ContentPart} {measures : Measures} {bytes : Nat}
    (spent : Spent measures bytes) (room : bytes + (parts.map partBytes).sum ≤ u32Max) :
    ∃ after, parts.foldlM (measurePart origin) measures = .ok after ∧
      Spent after (bytes + (parts.map partBytes).sum) := by
  induction parts generalizing measures bytes with
  | nil => exact ⟨measures, rfl, spent⟩
  | cons part parts ih =>
    rw [map_cons, sum_cons, ← Nat.add_assoc] at room ⊢
    have first : ∃ middle, measurePart origin measures part = .ok middle ∧ Spent middle (bytes + partBytes part) := by
      cases part with
      | image mimeType data => exact ⟨measures, rfl, spent⟩
      | text text =>
        have fits : bytes + utf8Length text.toList ≤ u32Max := Nat.le_trans (Nat.le_add_right _ _) room
        by_cases runtime : origin = .runtime
        · obtain ⟨middle, measured, spent, -⟩ := measureRuntime_spent spent fits
          exact ⟨middle, by rw [measurePart, if_pos runtime, measured], spent⟩
        · obtain ⟨middle, measured, spent, -⟩ := addTo_spent spent .conversation fits
          exact ⟨middle, by rw [measurePart, if_neg runtime, measured], spent⟩
    obtain ⟨middle, measured, held⟩ := first
    rw [foldlM_cons, measured, except_ok_bind]
    exact ih held room

/-- **A message is measured**, or a part of it cannot be encoded. -/
theorem measureMessage_spent {message : CanonicalMessage} {measures : Measures} {bytes : Nat}
    (spent : Spent measures bytes) (room : bytes + messageBytes encoder message ≤ u32Max) :
    Measures.Ends (Encodes encoder message) (measureMessage encoder message measures)
      (bytes + messageBytes encoder message) := by
  unfold Encodes measureMessage
  unfold messageBytes at room ⊢
  cases content : message.content with
  | parts parts =>
    rw [content] at room
    exact .inl (parts_spent spent room)
  | assistant text thinking round replay toolCalls =>
    rw [content] at room
    dsimp only at room ⊢
    obtain ⟨first, measured, spent, -⟩ := @addTo_spent _ _ spent .conversation text.toList (by omega)
    obtain ⟨second, more, spent, -⟩ := @addTo_spent _ _ spent .conversation thinking.toList (by omega)
    rw [measured, except_ok_bind, more, except_ok_bind, ← Nat.add_assoc, ← Nat.add_assoc]
    exact encoded_spent spent .conversation (by omega)
  | toolResult result =>
    rw [content] at room
    exact encoded_spent spent .conversation room

/-! ### The cache -/

variable (encoder) in
/-- The loop over the messages without a cache. -/
def measureAll : List CanonicalMessage → Measures → Except Fault Measures
  | [], measures => .ok measures
  | message :: messages, measures =>
    (measureMessage encoder message .default).bind fun contribution =>
      (addContribution measures contribution).bind (measureAll messages)

/-- Equal ids mean equal contents, as they are stored. -/
def SameContent (messages : List CanonicalMessage) : Prop :=
  ∀ message ∈ messages, ∀ other ∈ messages, message.messageId = other.messageId → message.payload = other.payload

variable (encoder) in
/-- A cache that has the measures of the messages. -/
def Caches (messages : List CanonicalMessage) (cache : MessageMeasureCache) : Prop :=
  ∀ message ∈ messages, ∀ cached, cache.entries message.messageId = some cached →
    measureMessage encoder message .default = .ok cached

theorem measureMessage_payload (message : CanonicalMessage) (measures : Measures) :
    measureMessage encoder message.payload measures = measureMessage encoder message measures := by
  obtain ⟨messageId, role, origin, content, runtimeEventId⟩ := message
  cases content <;> rfl

theorem caches_default (messages : List CanonicalMessage) : Caches encoder messages .default := fun _ _ _ => nofun

theorem Caches.measures {known : List CanonicalMessage} (same : SameContent known) {cache : MessageMeasureCache}
    (caches : Caches encoder known cache) {message : CanonicalMessage} (member : message ∈ known) :
    (cache.measures encoder message).1 = measureMessage encoder message .default ∧
      Caches encoder known (cache.measures encoder message).2 := by
  unfold MessageMeasureCache.measures
  cases stored : cache.entries message.messageId with
  | some cached => exact ⟨(caches message member cached stored).symm, caches⟩
  | none =>
    cases measured : measureMessage encoder message .default with
    | error fault => exact ⟨rfl, caches⟩
    | ok measures =>
      refine ⟨rfl, fun other there cached found => ?_⟩
      by_cases equal : other.messageId = message.messageId
      · have value : some measures = some cached := by
          rw [← found, equal]
          exact (Function.update_self message.messageId (some measures) cache.entries).symm
        rw [← measureMessage_payload, same other there message member equal, measureMessage_payload, measured,
          Option.some.inj value]
      · refine caches other there cached ?_
        rw [← found]
        exact (Function.update_of_ne equal ..).symm

/-- **A cache changes no measure.** -/
theorem measureMessages_eq {known : List CanonicalMessage} (same : SameContent known) {messages : List CanonicalMessage}
    (within : ∀ message ∈ messages, message ∈ known) (measures : Measures) {cache : MessageMeasureCache}
    (caches : Caches encoder known cache) :
    (measureMessages encoder messages measures cache).1 = measureAll encoder messages measures ∧
      Caches encoder known (measureMessages encoder messages measures cache).2 := by
  induction messages generalizing measures cache with
  | nil => exact ⟨rfl, caches⟩
  | cons message messages ih =>
    obtain ⟨looked, kept⟩ := caches.measures same (within message mem_cons_self)
    rw [measureAll, ← looked, measureMessages]
    cases (cache.measures encoder message).1 with
    | error fault => exact ⟨rfl, kept⟩
    | ok contribution =>
      dsimp only [Except.bind]
      cases addContribution measures contribution with
      | error fault => exact ⟨rfl, kept⟩
      | ok sum => exact ih (fun other member => within other (mem_cons_of_mem _ member)) sum kept

/-! ### All messages -/

/-- The sum of two measures. -/
def Measures.plus (measures contribution : Measures) : Measures := fun category =>
  ⟨(measures category).characters + (contribution category).characters,
    (measures category).tokenUnits + (contribution category).tokenUnits⟩

theorem addContribution_foldlM {categories : List Category} (distinct : categories.Nodup)
    {measures contribution : Measures}
    (fits : ∀ category ∈ categories, (measures category).characters + (contribution category).characters ≤ u64Max ∧
      (measures category).tokenUnits + (contribution category).tokenUnits ≤ u64Max) :
    categories.foldlM (fun measures category => do
      let characters ← addU64 (measures category).characters (contribution category).characters
      let tokenUnits ← addU64 (measures category).tokenUnits (contribution category).tokenUnits
      return Function.update measures category ⟨characters, tokenUnits⟩) measures =
      Except.ok fun category =>
        if category ∈ categories then measures.plus contribution category else measures category := by
  induction categories generalizing measures with
  | nil => rfl
  | cons first categories ih =>
    obtain ⟨apart, distinct⟩ := nodup_cons.mp distinct
    obtain ⟨characters, units⟩ := fits first mem_cons_self
    have later (category : Category) (member : category ∈ categories) :
        Function.update measures first (measures.plus contribution first) category = measures category :=
      Function.update_of_ne (ne_of_mem_of_not_mem member apart) _ _
    rw [foldlM_cons, addU64_ok characters, except_ok_bind, addU64_ok units, except_ok_bind]
    have rest := @ih distinct (Function.update measures first (measures.plus contribution first))
      fun category member => by
        rw [later category member]
        exact fits category (mem_cons_of_mem _ member)
    refine rest.trans (congrArg Except.ok (funext fun category => ?_))
    by_cases member : category ∈ categories
    · rw [if_pos member, if_pos (mem_cons_of_mem _ member), Measures.plus, later category member]
      rfl
    · rw [if_neg member]
      by_cases same : category = first
      · subst same
        rw [if_pos mem_cons_self, Function.update_self]
      · rw [if_neg (by simp [same, member]), Function.update_of_ne same]

theorem addContribution_ok {measures contribution : Measures} {bytes more : Nat} (spent : Spent measures bytes)
    (added : Spent contribution more) (room : bytes + more ≤ u32Max) :
    addContribution measures contribution = .ok (measures.plus contribution) ∧
      Spent (measures.plus contribution) (bytes + more) := by
  have characters := sumOver_add Category.all (fun category => (measures category).characters)
    fun category => (contribution category).characters
  have units := sumOver_add Category.all (fun category => (measures category).tokenUnits)
    fun category => (contribution category).tokenUnits
  have spentCharacters : sumOver Category.all (fun category => (measures category).characters) ≤ bytes :=
    spent.characters
  have spentUnits : sumOver Category.all (fun category => (measures category).tokenUnits) ≤ 275 * bytes :=
    spent.tokenUnits
  have addedCharacters : sumOver Category.all (fun category => (contribution category).characters) ≤ more :=
    added.characters
  have addedUnits : sumOver Category.all (fun category => (contribution category).tokenUnits) ≤ 275 * more :=
    added.tokenUnits
  constructor
  · have ran := @addContribution_foldlM _ all_nodup measures contribution fun category _ => by
      have first := le_sumOver (mem_all category) fun category =>
        (measures category).characters + (contribution category).characters
      have second := le_sumOver (mem_all category) fun category =>
        (measures category).tokenUnits + (contribution category).tokenUnits
      unfold u32Max at room
      unfold u64Max
      omega
    refine ran.trans (congrArg Except.ok (funext fun category => ?_))
    rw [if_pos (mem_all category)]
  · constructor
    · show sumOver Category.all (fun category => _ + _) ≤ _
      omega
    · show sumOver Category.all (fun category => _ + _) ≤ _
      omega

/-- **All messages are measured**, or one cannot be encoded. -/
theorem measureAll_spent {messages : List CanonicalMessage} {measures : Measures} {bytes : Nat}
    (spent : Spent measures bytes) (room : bytes + (messages.map (messageBytes encoder)).sum ≤ u32Max) :
    Measures.Ends (∀ message ∈ messages, Encodes encoder message) (measureAll encoder messages measures)
      (bytes + (messages.map (messageBytes encoder)).sum) := by
  induction messages generalizing measures bytes with
  | nil => exact .inl ⟨measures, rfl, spent⟩
  | cons message messages ih =>
    rw [map_cons, sum_cons, ← Nat.add_assoc] at room ⊢
    have fits : bytes + messageBytes encoder message ≤ u32Max := Nat.le_trans (Nat.le_add_right _ _) room
    rw [measureAll]
    have alone : 0 + messageBytes encoder message ≤ u32Max := by omega
    rcases @measureMessage_spent encoder message _ _ spent_default alone with
      ⟨contribution, measured, own⟩ | ⟨unencoded, error, failed⟩
    · rw [measured]
      rw [Nat.zero_add] at own
      obtain ⟨added, held⟩ := addContribution_ok spent own fits
      show Measures.Ends _ ((addContribution measures contribution).bind _) _
      rw [added]
      exact (ih held room).imp id (And.imp_left fun others all => others fun other member =>
        all other (mem_cons_of_mem _ member))
    · rw [failed]
      exact .inr ⟨fun all => unencoded (all message mem_cons_self), error, rfl⟩

end

/-! ### The fit -/

theorem sumU64_ok {estimates : Estimates} {categories : List Category} {start : Nat}
    (fits : start + sumOver categories estimates ≤ u64Max) :
    categories.foldlM (fun sum category => addU64 sum (estimates category)) start =
      .ok (start + sumOver categories estimates) := by
  induction categories generalizing start with
  | nil => rfl
  | cons category categories ih =>
    rw [sumOver_cons, ← Nat.add_assoc] at fits
    rw [foldlM_cons, addU64_ok (Nat.le_trans (Nat.le_add_right _ _) fits), except_ok_bind, ih fits, sumOver_cons,
      Nat.add_assoc]

theorem special_nodup : Category.special.Nodup := by decide

theorem scale_foldlM {categories : List Category} (distinct : categories.Nodup) {original start : Estimates}
    {total whole assigned : Nat} (exactly : ∀ category ∈ categories, original category * total ≤ u64Max)
    (fits : assigned + sumOver categories (part original total whole) ≤ u64Max) :
    categories.foldlM (fun state category => do
      let scaled := mulSaturating (original category) total / whole
      let assigned ← addU64 state.2 scaled
      return (Function.update state.1 category scaled, assigned)) (start, assigned) =
      Except.ok (fun category => if category ∈ categories then part original total whole category else start category,
        assigned + sumOver categories (part original total whole)) := by
  induction categories generalizing start assigned with
  | nil => rfl
  | cons first categories ih =>
    obtain ⟨apart, distinct⟩ := nodup_cons.mp distinct
    have scaled : mulSaturating (original first) total / whole = part original total whole first := by
      rw [mulSaturating, Nat.min_eq_left (exactly first mem_cons_self)]
      rfl
    rw [sumOver_cons, ← Nat.add_assoc] at fits
    have own := addU64_ok (Nat.le_trans (Nat.le_add_right _ _) fits)
    rw [foldlM_cons]
    dsimp only
    rw [scaled, own, except_ok_bind]
    have rest := @ih distinct (Function.update start first (part original total whole first))
      (assigned + part original total whole first)
      (fun category member => exactly category (mem_cons_of_mem _ member)) fits
    refine rest.trans (congrArg Except.ok (Prod.ext (funext fun category => ?_) ?_))
    · show (if category ∈ categories then _ else Function.update start first _ category) =
        if category ∈ first :: categories then _ else _
      by_cases member : category ∈ categories
      · rw [if_pos member, if_pos (mem_cons_of_mem _ member)]
      · rw [if_neg member]
        by_cases same : category = first
        · subst same
          rw [if_pos mem_cons_self, Function.update_self]
        · rw [if_neg (by simp [same, member]), Function.update_of_ne same]
    · show _ = assigned + sumOver (first :: categories) _
      rw [sumOver_cons, Nat.add_assoc]

theorem handOutRemainder_ok {remainder : Nat} {order : List Category} {estimates : Estimates}
    (fits : ∀ category ∈ order, estimates category + remainder ≤ u64Max) :
    handOutRemainder remainder order estimates = .ok (handOut remainder order estimates) := by
  induction order generalizing remainder estimates with
  | nil => cases remainder <;> rfl
  | cons first order ih =>
    cases remainder with
    | zero => rfl
    | succ remainder =>
      have room := fits first mem_cons_self
      rw [handOutRemainder, addU64_ok (by omega), except_ok_bind, handOut]
      refine ih fun category member => ?_
      have room := fits category (mem_cons_of_mem _ member)
      by_cases same : category = first
      · subst same
        rw [Function.update_self]
        omega
      · rw [Function.update_of_ne same]
        omega

/-- **What is scaled down** is scaled down to the total. -/
theorem fitSpecialEstimates_sum {estimates : Estimates} {total : Nat}
    (small : ∀ category ∈ Category.special, estimates category ≤ u32Max) (within : total ≤ u32Max) :
    ∃ fitted, fitSpecialEstimates estimates total = .ok fitted ∧
      sumOver Category.special fitted = min (sumOver Category.special estimates) total := by
  have products (category : Category) (member : category ∈ Category.special) : estimates category * total ≤ u64Max :=
    Nat.le_trans (Nat.mul_le_mul (small category member) within) (by decide)
  have bounded : sumOver Category.special estimates ≤ 7 * u32Max := by
    have each := @sumOver_le _ Category.special estimates (fun _ => u32Max) small
    exact each
  have summed : sumU64 estimates Category.special = .ok (sumOver Category.special estimates) := by
    have ran := @sumU64_ok estimates Category.special 0 (by unfold u32Max at bounded; unfold u64Max; omega)
    rwa [Nat.zero_add] at ran
  generalize specialTotal : sumOver Category.special estimates = whole at summed bounded
  rw [fitSpecialEstimates, summed, except_ok_bind]
  by_cases small : whole ≤ total ∨ whole = 0
  · rw [if_pos small]
    refine ⟨estimates, rfl, ?_⟩
    rw [specialTotal]
    omega
  · rw [if_neg small]
    have some : 0 < sumOver Category.special estimates := by omega
    obtain ⟨under, beyond⟩ := left_over some total
    rw [specialTotal] at under beyond
    unfold u32Max at within bounded
    have scaled := @scale_foldlM _ special_nodup estimates estimates total whole 0 products
      (by unfold u64Max; omega)
    rw [Nat.zero_add] at scaled
    generalize parts : (fun category => if category ∈ Category.special then part estimates total whole category
      else estimates category) = shares at scaled
    have sumParts : sumOver Category.special shares = sumOver Category.special (part estimates total whole) :=
      sumOver_congr fun category member => by
        rw [← parts]
        exact if_pos member
    rw [← sumParts] at scaled under beyond
    have ran : scaleEstimates estimates total whole = .ok (shares, sumOver Category.special shares) := scaled
    let order := Category.special.mergeSort fun first second =>
      mulSaturating (estimates second) total % whole ≤ mulSaturating (estimates first) total % whole
    have listed (category : Category) (member : category ∈ order) : category ∈ Category.special :=
      mem_mergeSort.mp member
    have enough : total - sumOver Category.special shares ≤ order.length := by
      rw [length_mergeSort]
      omega
    have handed := @handOutRemainder_ok (total - sumOver Category.special shares) order shares fun category member => by
      have own := le_sumOver (listed category member) shares
      unfold u64Max
      omega
    refine ⟨handOut (total - sumOver Category.special shares) order shares, ?_, ?_⟩
    · rw [ran, except_ok_bind]
      dsimp only
      rw [subU64, if_pos under, except_ok_bind]
      exact handed
    · rw [sumOver_handOut special_nodup listed enough]
      omega

/-! ### The snapshot -/

theorem toNat_toU32 {value : Nat} (fits : value ≤ u32Max) : (toU32 value).toNat = value := by
  rw [toU32, Nat.min_eq_left fits]
  exact UInt32.toNat_ofNat_of_lt (Nat.lt_succ_of_le fits)

theorem estimatedTokens_le {measures : Measures} {bytes : Nat} (spent : Spent measures bytes) (fits : bytes ≤ u32Max)
    (category : Category) : (measures category).estimatedTokens ≤ u32Max := by
  have units := le_sumOver (mem_all category) fun other => (measures other).tokenUnits
  have spentUnits : sumOver Category.all (fun other => (measures other).tokenUnits) ≤ 275 * bytes := spent.tokenUnits
  unfold Measure.estimatedTokens
  unfold u32Max at fits ⊢
  omega

theorem estimate_le {measures : Measures} {bytes : Nat} (spent : Spent measures bytes) (fits : bytes ≤ u32Max)
    (baseline : Option PromptTokenBreakdownSnapshot) (category : Category) :
    (estimate baseline measures).1 category ≤ u32Max := by
  have plain : (if category = .conversation then 0 else (measures category).estimatedTokens) ≤ u32Max := by
    split_ifs
    · exact Nat.zero_le _
    · exact estimatedTokens_le spent fits category
  unfold estimate
  split_ifs
  · exact plain
  · cases baselineSummary baseline with
    | none => exact plain
    | some summary =>
      dsimp only
      by_cases same : category = .summary
      · subst same
        rw [Function.update_self]
        exact Nat.le_of_lt_succ summary.estimatedTokens.toNat_lt
      · rw [Function.update_of_ne same]
        exact plain

/-- What the categories of a snapshot have together. -/
def PromptTokenBreakdownSnapshot.tokens (snapshot : PromptTokenBreakdownSnapshot) : Nat :=
  (snapshot.categories.map fun category => category.estimatedTokens.toNat).sum

/-- **A breakdown adds up.** -/
theorem fitBreakdown_sum {measures : Measures} {bytes : Nat} (spent : Spent measures bytes) (fits : bytes ≤ u32Max)
    (usedTokens maxTokens : UInt32) (baseline : Option PromptTokenBreakdownSnapshot) :
    ∃ snapshot, fitBreakdown usedTokens maxTokens baseline measures = .ok snapshot ∧
      snapshot.tokens = usedTokens.toNat := by
  have within : usedTokens.toNat ≤ u32Max := Nat.le_of_lt_succ usedTokens.toNat_lt
  obtain ⟨fitted, ran, sum⟩ :=
    fitSpecialEstimates_sum (fun category _ => estimate_le spent fits baseline category) within
  have special : sumU64 fitted Category.special = .ok (sumOver Category.special fitted) := by
    have summed := @sumU64_ok fitted Category.special 0 (by unfold u32Max at within; unfold u64Max; omega)
    rwa [Nat.zero_add] at summed
  let final : Estimates :=
    Function.update fitted .conversation (usedTokens.toNat - sumOver Category.special fitted)
  have kept : sumOver Category.special final = sumOver Category.special fitted :=
    sumOver_update_of_notMem (by decide) _ _
  have whole : sumOver Category.all final = usedTokens.toNat := by
    rw [Category.all, sumOver_append, kept, sumOver_cons, sumOver_nil]
    show _ + (Function.update fitted Category.conversation _ Category.conversation + 0) = _
    rw [Function.update_self]
    omega
  refine ⟨⟨usedTokens, maxTokens, toCategories final (estimate baseline measures).2⟩, ?_, ?_⟩
  · rw [fitBreakdown]
    show (fitSpecialEstimates (estimate baseline measures).1 usedTokens.toNat >>= _) = _
    rw [ran, except_ok_bind, special, except_ok_bind]
    rfl
  · rw [PromptTokenBreakdownSnapshot.tokens, toCategories, map_map]
    refine (sumOver_congr fun category member => ?_).trans whole
    exact toNat_toU32 ((le_sumOver member final).trans (whole.trans_le within))

/-! ### Every call -/

section

variable (encoder : Encoder)

/-- The cache that some calls leave. -/
def cacheAfter (earlier : List BreakdownCall) : MessageMeasureCache :=
  earlier.foldl (fun cache call => (breakdown encoder call cache).2) .default

/-- The bytes of the texts that `StaticMeasures::new` measures. -/
def staticBytes (instructions : String) (tools : List ToolDefinition) : Nat :=
  utf8Length instructions.toList + (tools.map fun tool => encodedBytes (encoder.tool tool)).sum

variable {encoder}

theorem tools_spent {tools : List ToolDefinition} (dynamicTools : List String) {measures : Measures} {bytes : Nat}
    (spent : Spent measures bytes)
    (room : bytes + (tools.map fun tool => encodedBytes (encoder.tool tool)).sum ≤ u32Max) :
    Measures.Ends (∀ tool ∈ tools, ∃ text, encoder.tool tool = .ok text) (tools.foldlM (fun measures tool => do
      let text ← encoded (encoder.tool tool)
      measures.addTo (if dynamicTools.contains tool.name then .mcp else .tools) text) measures)
      (bytes + (tools.map fun tool => encodedBytes (encoder.tool tool)).sum) := by
  induction tools generalizing measures bytes with
  | nil => exact .inl ⟨measures, rfl, spent⟩
  | cons tool tools ih =>
    rw [map_cons, sum_cons, ← Nat.add_assoc] at room ⊢
    have fits : bytes + encodedBytes (encoder.tool tool) ≤ u32Max := Nat.le_trans (Nat.le_add_right _ _) room
    rw [foldlM_cons]
    rcases encoded_spent spent (if dynamicTools.contains tool.name then .mcp else .tools) fits with
      ⟨after, ran, held⟩ | ⟨unencoded, error, failed⟩
    · rw [ran, except_ok_bind]
      exact (ih held room).imp id (And.imp_left fun others all => others fun other member =>
        all other (mem_cons_of_mem _ member))
    · rw [failed, except_error_bind]
      exact .inr ⟨fun all => unencoded (all tool mem_cons_self), error, rfl⟩

/-- **The static part is measured**, or a tool cannot be encoded. -/
theorem staticMeasures_spent {instructions : String} {tools : List ToolDefinition} (dynamicTools : List String)
    (room : staticBytes encoder instructions tools ≤ u32Max) :
    Measures.Ends (∀ tool ∈ tools, ∃ text, encoder.tool tool = .ok text)
      (staticMeasures encoder instructions tools dynamicTools) (staticBytes encoder instructions tools) := by
  unfold staticBytes at room ⊢
  have fits : 0 + utf8Length instructions.toList ≤ u32Max := by omega
  obtain ⟨after, added, spent, -⟩ := addTo_spent spent_default .system fits
  rw [Nat.zero_add] at spent
  rw [staticMeasures, added, except_ok_bind]
  exact tools_spent dynamicTools spent room

/-- The arguments of a call: its statics are measured, and all its texts have less than 2³² bytes. -/
structure Measurable (encoder : Encoder) (instructions : String) (tools : List ToolDefinition)
    (dynamicTools : List String) (call : BreakdownCall) : Prop where
  statics : staticMeasures encoder instructions tools dynamicTools = .ok call.statics
  bounded : staticBytes encoder instructions tools + (call.messages.map (messageBytes encoder)).sum < 4294967296

/-- What is said of a call after some others. -/
structure AddsUp (encoder : Encoder) (earlier : List BreakdownCall) (call : BreakdownCall) : Prop where
  gives : (∀ message ∈ call.messages, Encodes encoder message) →
    ∃ snapshot, (breakdown encoder call (cacheAfter encoder earlier)).1 = .ok snapshot
  sum : ∀ snapshot, (breakdown encoder call (cacheAfter encoder earlier)).1 = .ok snapshot →
    snapshot.tokens = call.usedTokens.toNat
  safe : ∀ fault, (breakdown encoder call (cacheAfter encoder earlier)).1 = .error fault →
    ∃ error, fault = .failed error
  cached : (breakdown encoder call (cacheAfter encoder earlier)).1 = (breakdown encoder call .default).1
  whole : ∀ message ∈ call.messages, message.origin = .runtime → ∀ parts, message.content = .parts parts →
    ∀ text, .text text ∈ parts → ∃ measures, measureRuntime text.toList .default = .ok measures ∧
      measures.characters = utf16Length text.toList

theorem breakdown_eq {known : List CanonicalMessage} (same : SameContent known) (call : BreakdownCall)
    (within : ∀ message ∈ call.messages, message ∈ known) {cache : MessageMeasureCache}
    (caches : Caches encoder known cache) :
    (breakdown encoder call cache).1 =
        (measureAll encoder call.messages call.statics).bind
          (fitBreakdown call.usedTokens call.maxTokens call.baseline) ∧
      Caches encoder known (breakdown encoder call cache).2 := by
  obtain ⟨equal, kept⟩ := measureMessages_eq same within call.statics caches
  exact ⟨congrArg (Except.bind · _) equal, kept⟩

theorem cacheAfter_caches {known : List CanonicalMessage} (same : SameContent known) {earlier : List BreakdownCall}
    (within : ∀ call ∈ earlier, ∀ message ∈ call.messages, message ∈ known) :
    Caches encoder known (cacheAfter encoder earlier) := by
  induction earlier using List.reverseRecOn with
  | nil => exact caches_default known
  | append_singleton earlier last ih =>
    rw [cacheAfter, foldl_append]
    exact (breakdown_eq same last (within last (by simp))
      (ih fun call member => within call (mem_append_left _ member))).2

theorem partBytes_le {message : CanonicalMessage} {parts : List ContentPart} (content : message.content = .parts parts)
    {text : String} (member : .text text ∈ parts) : utf8Length text.toList ≤ messageBytes encoder message := by
  rw [messageBytes, content]
  exact le_sumOver member partBytes

/-- **The context breakdown.** The categories add up to the tokens that were used, nothing overflows, a cache makes no
difference, and every runtime text is counted whole. -/
theorem breakdown_adds_up {instructions : String} {tools : List ToolDefinition} {dynamicTools : List String}
    {earlier : List BreakdownCall} {call : BreakdownCall}
    (measurable : Measurable encoder instructions tools dynamicTools call)
    (same : SameContent (earlier.flatMap BreakdownCall.messages ++ call.messages)) :
    AddsUp encoder earlier call := by
  have bounded := Nat.le_of_lt_succ measurable.bounded
  have statics : Spent call.statics (staticBytes encoder instructions tools) := by
    have room : staticBytes encoder instructions tools ≤ u32Max := Nat.le_trans (Nat.le_add_right _ _) bounded
    rcases staticMeasures_spent dynamicTools room with ⟨after, ran, spent⟩ | ⟨-, error, failed⟩
    · obtain rfl := Except.ok.inj (ran.symm.trans measurable.statics)
      exact spent
    · exact absurd (failed.symm.trans measurable.statics) nofun
  have mine (message : CanonicalMessage) (member : message ∈ call.messages) :
      message ∈ earlier.flatMap BreakdownCall.messages ++ call.messages := mem_append_right _ member
  have others (before : BreakdownCall) (member : before ∈ earlier) (message : CanonicalMessage)
      (there : message ∈ before.messages) : message ∈ earlier.flatMap BreakdownCall.messages ++ call.messages :=
    mem_append_left _ (mem_flatMap_of_mem member there)
  have caches : Caches encoder (earlier.flatMap BreakdownCall.messages ++ call.messages) (cacheAfter encoder earlier) :=
    cacheAfter_caches same others
  have cached := (breakdown_eq same call mine caches).1
  -- the call gives a snapshot, unless a message cannot be encoded
  have ends : (∃ snapshot, (breakdown encoder call (cacheAfter encoder earlier)).1 = .ok snapshot ∧
        snapshot.tokens = call.usedTokens.toNat) ∨
      ¬ (∀ message ∈ call.messages, Encodes encoder message) ∧
        ∃ error, (breakdown encoder call (cacheAfter encoder earlier)).1 = .error (.failed error) := by
    rw [cached]
    rcases measureAll_spent statics bounded with ⟨after, ran, spent⟩ | ⟨unencoded, error, failed⟩
    · rw [ran]
      exact .inl (fitBreakdown_sum spent bounded call.usedTokens call.maxTokens call.baseline)
    · rw [failed]
      exact .inr ⟨unencoded, error, rfl⟩
  refine ⟨fun all => ?_, fun snapshot done => ?_, fun fault failed => ?_, ?_,
    fun message member runtime parts content text listed => ?_⟩
  · rcases ends with ⟨snapshot, made, -⟩ | ⟨unencoded, -⟩
    · exact ⟨snapshot, made⟩
    · exact absurd all unencoded
  · rcases ends with ⟨made, given, sum⟩ | ⟨-, error, failed⟩
    · obtain rfl := Except.ok.inj (given.symm.trans done)
      exact sum
    · exact absurd (failed.symm.trans done) nofun
  · rcases ends with ⟨made, given, -⟩ | ⟨-, error, unencoded⟩
    · exact absurd (given.symm.trans failed) nofun
    · exact ⟨error, Except.error.inj (failed.symm.trans unencoded)⟩
  · rw [cached, (breakdown_eq same call mine (caches_default _)).1]
  · have own : utf8Length text.toList ≤ messageBytes encoder message := partBytes_le content listed
    have one := le_sumOver member (messageBytes encoder)
    have room : 0 + utf8Length text.toList ≤ u32Max := by
      unfold sumOver at one
      unfold u32Max
      omega
    obtain ⟨after, ran, -, characters⟩ := measureRuntime_spent spent_default room
    exact ⟨after, ran, by rw [characters]; exact Nat.zero_add _⟩

end

/-! ### A call -/

/-- An encoder for lists that are empty. -/
def emptyEncoder : Encoder := ⟨fun _ => .ok "", fun _ => .ok "[]", fun _ => .ok ""⟩

def sampleCall : BreakdownCall where
  usedTokens := 12
  maxTokens := 8000
  baseline := none
  statics := Function.update Measures.default .system ⟨7, 1911⟩
  messages :=
    [⟨"m1", .user, .runtime, .parts [.text "<rules>a</rules>b"], none⟩,
      ⟨"m2", .assistant, .assistant, .assistant "hi" "" none none [], none⟩]

theorem breakdown_adds_up_sample : AddsUp emptyEncoder [sampleCall] sampleCall := by
  have measurable : Measurable emptyEncoder "You are" [] [] sampleCall := ⟨rfl, by decide⟩
  refine breakdown_adds_up measurable ?_
  simp [SameContent, sampleCall]

end Byok.Cursor.Services
