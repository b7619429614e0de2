/-
**A stream reports the string members of its object.**

Over the text of an object whose names are distinct, the machine of `JsonStream` reports the deltas of each
string member, which join to its text, and then its end, once; of other members it reports nothing
(`feed_reports`). The grammar of JSON leads the proof: a string is spelt character by character
(`run_body`), a value that is no string is skipped (`skip_value`), and the members follow one another
(`run_members`).
-/

import Byok.Cursor.Protocol.JsonStrings
import Mathlib.Data.List.Nodup

namespace Byok

open Library Library.Json List

/-! ### Deltas in several pieces -/

/-- The events of a stream, where deltas of one member may have been joined. -/
inductive Merged : List StringFieldEvent → List StringFieldEvent → Prop
  | nil : Merged [] []
  | keep {raw events : List StringFieldEvent} (event : StringFieldEvent) (merged : Merged raw events) :
      Merged (raw ++ [event]) (events ++ [event])
  | join {raw events : List StringFieldEvent} {name before : String} (text : String)
      (merged : Merged raw (events ++ [.delta name before])) :
      Merged (raw ++ [.delta name text]) (events ++ [.delta name (before ++ text)])

namespace Merged

theorem addEvent {raw events : List StringFieldEvent} (merged : Merged raw events)
    (event : StringFieldEvent) : Merged (raw ++ [event]) (addEvent events event) := by
  cases event with
  | ended name => exact merged.keep _
  | delta name text =>
    rw [Byok.addEvent]
    rcases eq_nil_or_concat' events with rfl | ⟨above, last, rfl⟩
    · exact merged.keep _
    · rw [getLast?_concat, dropLast_concat]
      cases last with
      | ended previous => exact merged.keep _
      | delta previous before =>
        by_cases same : previous = name
        · subst same
          simp only [if_true]
          exact merged.join text
        · simp only [if_neg same]
          exact merged.keep _

theorem of_nil {events : List StringFieldEvent} (merged : Merged [] events) : events = [] := by
  generalize equal : ([] : List StringFieldEvent) = raw at merged
  cases merged with
  | nil => rfl
  | keep event merged => simp at equal
  | join text merged => simp at equal

theorem foldl {raw events : List StringFieldEvent} (merged : Merged raw events)
    (more : List StringFieldEvent) : Merged (raw ++ more) (more.foldl Byok.addEvent events) := by
  induction more generalizing raw events with
  | nil => rwa [append_nil]
  | cons event more ih =>
    rw [foldl_cons, append_cons]
    exact ih (merged.addEvent event)

theorem append {raw events raw' events' : List StringFieldEvent} (first : Merged raw events)
    (second : Merged raw' events') : Merged (raw ++ raw') (events ++ events') := by
  induction second with
  | nil => rwa [append_nil, append_nil]
  | keep event merged ih =>
    rw [← append_assoc, ← append_assoc]
    exact ih.keep event
  | join text merged ih =>
    rw [← append_assoc] at ih
    rw [← append_assoc, ← append_assoc]
    exact ih.join text

theorem filter {raw events : List StringFieldEvent} (merged : Merged raw events) (name : String) :
    Merged (raw.filter (·.name = name)) (events.filter (·.name = name)) := by
  induction merged with
  | nil => exact .nil
  | keep event merged ih =>
    rw [filter_append, filter_append]
    by_cases this : event.name = name
    · rw [filter_singleton, decide_eq_true this]
      exact ih.keep event
    · rw [filter_singleton, decide_eq_false this]
      simpa using ih
  | @join raw events other before text merged ih =>
    rw [filter_append] at ih
    rw [filter_append, filter_append]
    by_cases this : other = name
    · have stays : ∀ text, [StringFieldEvent.delta other text].filter (·.name = name) =
          [.delta other text] := fun text => by simp [this]
      rw [stays] at ih ⊢
      rw [stays]
      exact ih.join text
    · have goes : ∀ text, [StringFieldEvent.delta other text].filter (·.name = name) = [] :=
        fun text => by simp [this]
      rw [goes, append_nil] at ih ⊢
      rw [goes, append_nil]
      exact ih

theorem deltas {name : String} {texts : List String} {events : List StringFieldEvent}
    (merged : Merged (texts.map (.delta name)) events) :
    ∃ texts' : List String, events = texts'.map (.delta name) ∧
      String.join texts' = String.join texts := by
  generalize equal : texts.map (StringFieldEvent.delta name) = raw at merged
  induction merged generalizing texts with
  | nil =>
    obtain rfl := map_eq_nil_iff.mp equal
    exact ⟨[], rfl, rfl⟩
  | keep event merged ih =>
    obtain ⟨before, last, rfl, same, single⟩ := map_eq_append_iff.mp equal
    obtain ⟨text, rfl, rfl⟩ := map_eq_singleton_iff.mp single
    obtain ⟨texts', rfl, told⟩ := ih same
    exact ⟨texts' ++ [text], by rw [map_append]; rfl, by
      rw [← String.toList_inj] at told ⊢
      simpa using told⟩
  | @join raw events other joined text merged ih =>
    obtain ⟨before, last, rfl, same, single⟩ := map_eq_append_iff.mp equal
    obtain ⟨piece, rfl, this⟩ := map_eq_singleton_iff.mp single
    obtain ⟨rfl, rfl⟩ := StringFieldEvent.delta.inj this
    obtain ⟨texts', split, told⟩ := ih same
    obtain ⟨start, last, rfl, rfl, single⟩ := map_eq_append_iff.mp split.symm
    obtain ⟨final, rfl, this⟩ := map_eq_singleton_iff.mp single
    obtain ⟨-, rfl⟩ := StringFieldEvent.delta.inj this
    refine ⟨start ++ [final ++ piece], by rw [map_append]; rfl, ?_⟩
    rw [← String.toList_inj] at told ⊢
    simp only [String.toList_join, flatMap_append, flatMap_cons, flatMap_nil,
      append_nil, String.toList_append, ← append_assoc] at told ⊢
    rw [told]

end Merged

/-- The events of a member whose text is `text`: its deltas, and then its end. -/
def Reports (name text : String) (events : List StringFieldEvent) : Prop :=
  ∃ texts : List String, events.filter (·.name = name) = texts.map (.delta name) ++ [.ended name] ∧
    String.join texts = text

theorem Merged.reports {raw events : List StringFieldEvent} {name text : String}
    (merged : Merged raw events) (reports : Reports name text raw) : Reports name text events := by
  obtain ⟨texts, split, told⟩ := reports
  have here := merged.filter name
  rw [split] at here
  generalize left : texts.map (StringFieldEvent.delta name) ++ [.ended name] = all at here
  generalize right : events.filter (·.name = name) = kept at here
  cases here with
  | nil => simp at left
  | keep event merged =>
    obtain ⟨rfl, this⟩ := append_inj' left rfl
    obtain rfl := singleton_inj.mp this
    obtain ⟨texts', rfl, same⟩ := merged.deltas
    exact ⟨texts', right, same.trans told⟩
  | join text merged =>
    have last := congrArg List.getLast? left
    simp at last

/-- **Chunks do not matter**, but for the pieces of the deltas. -/
theorem feed_of_run {json : SerdeJson} {fields last : JsonStringFields} {stream : List String}
    {raw : List StringFieldEvent}
    (ran : (characters json).run fields (String.join stream).toList = .ok (raw, last)) :
    ∃ events, (chunks json).run fields stream = .ok (events, last) ∧ Merged raw events := by
  rw [String.toList_join] at ran
  induction stream generalizing fields raw with
  | nil =>
    obtain ⟨rfl, rfl⟩ := Prod.mk.inj (Except.ok.inj ran)
    exact ⟨[], rfl, .nil⟩
  | cons chunk stream ih =>
    rw [flatMap_cons] at ran
    obtain ⟨added, between, more, first, second, rfl⟩ := (characters json).run_append_inv ran
    obtain ⟨events, rest, merged⟩ := ih second
    refine ⟨added.foldl Byok.addEvent [] ++ events, ?_, (Merged.nil.foldl added).append merged⟩
    refine (chunks json).run_cons_ok ?_ rest
    show JsonStringFields.push json fields chunk = _
    rw [JsonStringFields.push, first, except_ok_bind]

/-! ### Values that are skipped -/

/-- What `SkippedValue` makes of a text that has no terminator at depth zero. -/
def skipAll (skipped : SkippedValue) : List Char → Option SkippedValue
  | [] => some skipped
  | character :: text =>
    if skipped.terminal character then none else skipAll (skipped.observe character) text

/-- The characters that mean something outside of strings. -/
def inert (character : Char) : Bool := !(['"', '{', '[', '}', ']', ','].contains character)

theorem skipAll_append {skipped between : SkippedValue} {text : List Char}
    (first : skipAll skipped text = some between) (more : List Char) :
    skipAll skipped (text ++ more) = skipAll between more := by
  induction text generalizing skipped with
  | nil =>
    obtain rfl := Option.some.inj first
    rfl
  | cons character text ih =>
    rw [cons_append]
    rw [skipAll] at first ⊢
    split at first
    · cases first
    · rename_i inside
      rw [if_neg inside]
      exact ih first

theorem observe_inert {character : Char} (still : inert character = true) (depth : Nat) :
    (SkippedValue.mk depth false false).observe character = ⟨depth, false, false⟩ := by
  simp only [inert, contains_cons, contains_nil, Bool.or_false, Bool.not_eq_true',
    Bool.or_eq_false_iff, beq_eq_false_iff_ne, ne_eq] at still
  obtain ⟨quote, brace, bracket, brace', bracket', -⟩ := still
  simp only [SkippedValue.observe, if_neg quote, brace, bracket, brace', bracket', or_self, if_false,
    Bool.false_eq_true]

theorem terminal_other {character : Char} (comma : character ≠ ',') (brace : character ≠ '}')
    (skipped : SkippedValue) : skipped.terminal character = false := by
  rw [SkippedValue.terminal, beq_eq_false_iff_ne.mpr comma, beq_eq_false_iff_ne.mpr brace,
    Bool.or_false, Bool.and_false]

theorem terminal_inside (character : Char) (depth : Nat) (string escaped : Bool) :
    (SkippedValue.mk (depth + 1) string escaped).terminal character = false := by
  rw [SkippedValue.terminal, beq_eq_false_iff_ne.mpr (Nat.succ_ne_zero depth), Bool.and_false,
    Bool.false_and]

theorem skip_inert {text : List Char} (still : ∀ character ∈ text, inert character = true)
    (depth : Nat) : skipAll ⟨depth, false, false⟩ text = some ⟨depth, false, false⟩ := by
  induction text with
  | nil => rfl
  | cons character text ih =>
    have here := still character mem_cons_self
    have comma : character ≠ ',' := by
      rintro rfl
      cases here
    have brace : character ≠ '}' := by
      rintro rfl
      cases here
    rw [skipAll, terminal_other comma brace, observe_inert here]
    exact ih fun other member => still other (mem_cons_of_mem _ member)

theorem inert_of_isBlank {character : Char} (blank : isBlank character = true) :
    inert character = true := by
  simp only [isBlank, Bool.or_eq_true, beq_iff_eq] at blank
  rcases blank with ((rfl | rfl) | rfl) | rfl <;> rfl

theorem skip_blank {text : List Char} (blank : Blank text) (depth : Nat) :
    skipAll ⟨depth, false, false⟩ text = some ⟨depth, false, false⟩ :=
  skip_inert (fun character member => inert_of_isBlank (blank character member)) depth

/-- A character of a number or a word: it means nothing outside of strings, and is no blank. -/
structure Wordy (character : Char) : Prop where
  inert : inert character = true
  visible : isWhitespace character = false

theorem Wordy.digit {character : Char} (digit : character.isDigit = true) : Wordy character := by
  simp only [Char.isDigit, Bool.and_eq_true, decide_eq_true_eq] at digit
  have low : 48 ≤ character.toNat := UInt32.le_iff_toNat_le.mp digit.1
  have high : character.toNat ≤ 57 := UInt32.le_iff_toNat_le.mp digit.2
  constructor
  · cases known : Byok.inert character with
    | true => rfl
    | false =>
      simp only [Byok.inert, Bool.not_eq_false', contains_iff_mem, mem_cons,
        not_mem_nil, or_false] at known
      rcases known with rfl | rfl | rfl | rfl | rfl | rfl <;> revert low high <;> decide
  · simp only [isWhitespace, Bool.or_eq_false_iff, Bool.and_eq_false_iff, decide_eq_false_iff_not,
      beq_eq_false_iff_ne, ne_eq]
    omega

theorem Wordy.digits {text : List Char} (digits : Digits text) : ∀ character ∈ text, Wordy character :=
  fun character member => .digit (all_eq_true.mp digits.2 character member)

theorem Wordy.listed {character : Char}
    (listed : character ∈ ['-', '+', '.', 'e', 'E', 'n', 'u', 'l', 't', 'r', 'f', 'a', 's']) :
    Wordy character := by
  simp only [mem_cons, not_mem_nil, or_false] at listed
  rcases listed with rfl | rfl | rfl | rfl | rfl | rfl | rfl | rfl | rfl | rfl | rfl | rfl | rfl <;>
    exact ⟨by decide, by decide⟩

theorem Wordy.word {text : List Char}
    (listed : text.all ['-', '+', '.', 'e', 'E', 'n', 'u', 'l', 't', 'r', 'f', 'a', 's'].contains = true) :
    ∀ character ∈ text, Wordy character :=
  fun character member => .listed (contains_iff_mem.mp (all_eq_true.mp listed character member))

theorem Wordy.number {text : List Char} (number : NumberText text) :
    ∀ character ∈ text, Wordy character := by
  obtain ⟨sign, whole, fraction, exponent, rfl, signed, wholed, fractioned, exponented⟩ := number.parts
  intro character member
  simp only [mem_append] at member
  rcases member with ((inside | inside) | inside) | inside
  · rcases signed with rfl | rfl
    · cases inside
    · exact .listed (by rw [mem_singleton.mp inside]; decide)
  · rcases wholed with rfl | ⟨digits, -⟩
    · exact .digit (by rw [mem_singleton.mp inside]; decide)
    · exact .digits digits character inside
  · rcases fractioned with rfl | ⟨digits, some, rfl⟩
    · cases inside
    · rcases mem_cons.mp inside with rfl | inside
      · exact .listed (by decide)
      · exact .digits some character inside
  · rcases exponented with rfl | ⟨letter, sign, digits, lettered, signed, some, rfl⟩
    · cases inside
    · rcases mem_cons.mp inside with rfl | inside
      · exact .listed (by rcases lettered with rfl | rfl <;> decide)
      · rcases mem_append.mp inside with inside | inside
        · refine .listed ?_
          rcases signed with rfl | rfl | rfl
          · cases inside
          · rw [mem_singleton.mp inside]
            decide
          · rw [mem_singleton.mp inside]
            decide
        · exact .digits some character inside

theorem skip_string {body text : List Char} (string : StringBody body text) (depth : Nat) :
    skipAll ⟨depth, true, false⟩ (body ++ ['"']) = some ⟨depth, false, false⟩ := by
  have silent : ∀ (skipped : SkippedValue) (character : Char), skipped.string = true →
      skipped.terminal character = false := fun skipped character inside => by
    rw [SkippedValue.terminal, inside, Bool.not_true, Bool.false_and, Bool.false_and]
  have plain : ∀ (character : Char) (rest : List Char), character ≠ '"' → character ≠ '\\' →
      skipAll ⟨depth, true, false⟩ (character :: rest) = skipAll ⟨depth, true, false⟩ rest := by
    intro character rest quote backslash
    rw [skipAll, silent _ _ rfl]
    simp only [SkippedValue.observe, if_true, if_neg backslash, if_neg quote, Bool.false_eq_true,
      if_false]
  have escaped : ∀ (character : Char) (rest : List Char),
      skipAll ⟨depth, true, false⟩ ('\\' :: character :: rest) = skipAll ⟨depth, true, false⟩ rest := by
    intro character rest
    rw [skipAll, skipAll, silent _ _ rfl, silent _ _ rfl]
    rfl
  have hex : ∀ (digits rest : List Char), digits.all isHexDigit = true →
      skipAll ⟨depth, true, false⟩ (digits ++ rest) = skipAll ⟨depth, true, false⟩ rest := by
    intro digits rest hex
    induction digits with
    | nil => rfl
    | cons digit digits ih =>
      rw [all_cons, Bool.and_eq_true] at hex
      rw [cons_append, plain digit _ (fun same => by rw [same] at hex; exact absurd hex.1 (by decide))
        (fun same => by rw [same] at hex; exact absurd hex.1 (by decide))]
      exact ih hex.2
  induction string with
  | nil =>
    rw [nil_append, skipAll, silent _ _ rfl]
    rfl
  | @plain character body text stands rest ih =>
    simp only [isPlain, Bool.and_eq_true, bne_iff_ne, ne_eq] at stands
    rw [cons_append, plain character _ stands.1.2 stands.2]
    exact ih
  | @escape escape character body text denotes rest ih =>
    rw [append_assoc]
    cases denotes with
    | short listed =>
      rw [cons_append, cons_append, nil_append, escaped]
      exact ih
    | unit four digits value =>
      rw [cons_append, cons_append, escaped, hex _ _ digits]
      exact ih
    | pair four digits high four' digits' low value =>
      rw [cons_append, cons_append, escaped, append_assoc, hex _ _ digits,
        cons_append, cons_append, escaped, hex _ _ digits']
      exact ih

theorem skip_quoted {body text : List Char} (string : StringBody body text) (depth : Nat)
    (rest : List Char) :
    skipAll ⟨depth, false, false⟩ ('"' :: (body ++ '"' :: rest)) = skipAll ⟨depth, false, false⟩ rest := by
  have opened : skipAll ⟨depth, false, false⟩ ('"' :: (body ++ '"' :: rest)) =
      skipAll ⟨depth, true, false⟩ ((body ++ ['"']) ++ rest) := by
    rw [append_assoc, skipAll, terminal_other (by decide) (by decide)]
    rfl
  rw [opened, skipAll_append (skip_string string depth)]

theorem skip_inside (character : Char) (depth : Nat) (rest : List Char) :
    skipAll ⟨depth + 1, false, false⟩ (character :: rest) =
      skipAll ((SkippedValue.mk (depth + 1) false false).observe character) rest := by
  rw [skipAll, terminal_inside]
  rfl

theorem skip_words {text : List Char} (words : ∀ character ∈ text, Wordy character) (depth : Nat) :
    skipAll ⟨depth, false, false⟩ text = some ⟨depth, false, false⟩ :=
  skip_inert (fun character member => (words character member).inert) depth

mutual

theorem skip_value : ∀ {tree : Tree} {text : List Char}, ValueText tree text → ∀ depth : Nat,
    skipAll ⟨depth + 1, false, false⟩ text = some ⟨depth + 1, false, false⟩
  | _, _, .null, depth => skip_words (Wordy.word rfl) _
  | _, _, .true, depth => skip_words (Wordy.word rfl) _
  | _, _, .false, depth => skip_words (Wordy.word rfl) _
  | _, _, .number number, depth => skip_words (Wordy.number number) _
  | _, _, .string string, depth => skip_quoted string _ []
  | _, _, .array texts, depth => by
    rw [skip_inside]
    show skipAll ⟨depth + 1 + 1, false, false⟩ _ = _
    rw [skipAll_append (skip_items texts (depth + 1)), skip_inside]
    rfl
  | _, _, .object texts, depth => by
    rw [skip_inside]
    show skipAll ⟨depth + 1 + 1, false, false⟩ _ = _
    rw [skipAll_append (skip_members texts (depth + 1)), skip_inside]
    rfl

theorem skip_items : ∀ {items : List Tree} {text : List Char}, ItemsText items text → ∀ depth : Nat,
    skipAll ⟨depth + 1, false, false⟩ text = some ⟨depth + 1, false, false⟩
  | _, _, .none blanks, depth => skip_blank blanks _
  | _, _, .one blanks text blanks', depth => by
    rw [skipAll_append (skip_blank blanks _), skipAll_append (skip_value text depth)]
    exact skip_blank blanks' _
  | _, _, .more blanks text blanks' texts, depth => by
    rw [skipAll_append (skip_blank blanks _), skipAll_append (skip_value text depth),
      skipAll_append (skip_blank blanks' _), skip_inside]
    exact skip_items texts depth

theorem skip_members : ∀ {members : List (List Char × Tree)} {text : List Char},
    MembersText members text → ∀ depth : Nat,
    skipAll ⟨depth + 1, false, false⟩ text = some ⟨depth + 1, false, false⟩
  | _, _, .none blanks, depth => skip_blank blanks _
  | _, _, .one blanks named blanks' blanks'' text blanksAfter, depth => by
    rw [skipAll_append (skip_blank blanks _), skip_quoted named, skipAll_append (skip_blank blanks' _),
      skip_inside]
    show skipAll ⟨depth + 1, false, false⟩ _ = _
    rw [skipAll_append (skip_blank blanks'' _), skipAll_append (skip_value text depth)]
    exact skip_blank blanksAfter _
  | _, _, .more blanks named blanks' blanks'' text blanksAfter texts, depth => by
    rw [skipAll_append (skip_blank blanks _), skip_quoted named, skipAll_append (skip_blank blanks' _),
      skip_inside]
    show skipAll ⟨depth + 1, false, false⟩ _ = _
    rw [skipAll_append (skip_blank blanks'' _), skipAll_append (skip_value text depth),
      skipAll_append (skip_blank blanksAfter _), skip_inside]
    exact skip_members texts depth

end

/-- A value that is no string starts with a character that is neither a blank nor a quote, and ends with
nothing open. -/
theorem skip_start {tree : Tree} {text : List Char} (value : ValueText tree text)
    (other : ∀ string, tree ≠ .string string) :
    ∃ first rest, text = first :: rest ∧ first ≠ '"' ∧ isWhitespace first = false ∧
      skipAll (SkippedValue.start first) rest = some {} := by
  have words : ∀ {first : Char} {rest : List Char}, (∀ character ∈ first :: rest, Wordy character) →
      first ≠ '"' ∧ isWhitespace first = false ∧ skipAll (SkippedValue.start first) rest = some {} := by
    intro first rest words
    have here := words first mem_cons_self
    refine ⟨fun same => ?_, here.visible, ?_⟩
    · have := here.inert
      rw [same] at this
      cases this
    · rw [SkippedValue.start, observe_inert here.inert]
      exact skip_words (fun character member => words character (mem_cons_of_mem _ member)) 0
  cases value with
  | null => exact ⟨_, _, rfl, words (Wordy.word rfl)⟩
  | true => exact ⟨_, _, rfl, words (Wordy.word rfl)⟩
  | false => exact ⟨_, _, rfl, words (Wordy.word rfl)⟩
  | number number =>
    obtain ⟨first, rest, rfl⟩ := exists_cons_of_ne_nil number.ne_nil
    exact ⟨first, rest, rfl, words (Wordy.number number)⟩
  | string => exact absurd rfl (other _)
  | array texts =>
    refine ⟨'[', _, rfl, by decide, by decide, ?_⟩
    show skipAll ⟨0 + 1, false, false⟩ _ = _
    rw [skipAll_append (skip_items texts 0), skip_inside]
    rfl
  | object texts =>
    refine ⟨'{', _, rfl, by decide, by decide, ?_⟩
    show skipAll ⟨0 + 1, false, false⟩ _ = _
    rw [skipAll_append (skip_members texts 0), skip_inside]
    rfl

/-! ### Members -/

/-- The events of one member: of a string, a delta for each character, and the end. -/
def memberEvents : List Char × Tree → List StringFieldEvent
  | (name, .string text) =>
    text.map (fun character => .delta (String.ofList name) (String.singleton character)) ++
      [.ended (String.ofList name)]
  | _ => []

theorem memberEvents_other {name : List Char} {item : Tree} (other : ∀ text, item ≠ .string text) :
    memberEvents (name, item) = [] := by
  cases item with
  | string text => exact absurd rfl (other text)
  | null | bool _ | number _ | array _ | object _ => rfl

theorem join_singletons (text : List Char) :
    String.join (text.map String.singleton) = String.ofList text := by
  rw [← String.toList_inj, String.toList_join, String.toList_ofList, flatMap_map]
  simp

theorem isWhitespace_of_isBlank {character : Char} (blank : isBlank character = true) :
    isWhitespace character = true := by
  simp only [isBlank, Bool.or_eq_true, beq_iff_eq] at blank
  rcases blank with ((rfl | rfl) | rfl) | rfl <;> rfl

section Members

variable {json : SerdeJson}

theorem run_still {fields : JsonStringFields} {text : List Char}
    (still : ∀ character ∈ text, consume json fields character = .ok ([], fields)) :
    (characters json).run fields text = .ok ([], fields) := by
  induction text with
  | nil => rfl
  | cons character text ih =>
    exact (characters json).run_cons_ok (still character mem_cons_self)
      (ih fun other member => still other (mem_cons_of_mem _ member))

/-- The states that pass over blanks. -/
def FieldState.isBetween : FieldState → Bool
  | .object | .key | .colon | .value | .afterValue | .done => true
  | .keyString | .valueString | .skipValue => false

theorem run_blank {fields : JsonStringFields} {text : List Char} (between : fields.state.isBetween = true)
    (blank : Blank text) : (characters json).run fields text = .ok ([], fields) := by
  refine run_still fun character member => ?_
  have white := isWhitespace_of_isBlank (blank character member)
  have other : character ≠ '{' ∧ character ≠ '"' ∧ character ≠ '}' ∧ character ≠ ':' ∧
      character ≠ ',' := by
    refine ⟨?_, ?_, ?_, ?_, ?_⟩ <;> (rintro rfl; cases white)
  obtain ⟨brace, quote, brace', colon, comma⟩ := other
  obtain ⟨state, key, string, skipped⟩ := fields
  cases state with
  | keyString | valueString | skipValue => cases between
  | object => simp only [consume, if_neg brace, if_pos white]
  | key => simp only [consume, if_neg quote, if_neg brace', if_pos white]
  | colon => simp only [consume, if_neg colon, if_pos white]
  | value => simp only [consume, if_neg quote, if_pos white]
  | afterValue => simp only [consume, comma, brace', or_self, if_false, if_pos white]
  | done => simp only [consume, if_pos white]

theorem strings_cons {escape last : List Char} {character : Char} {body : List Char}
    {steps : List StringStep} (ran : (strings json).run escape (character :: body) = .ok (steps, last)) :
    ∃ step next more, pushString json escape character = .ok (step, next) ∧
      (strings json).run next body = .ok (more, last) ∧ steps = step :: more := by
  rw [Transducer.run] at ran
  obtain ⟨⟨out, next⟩, first, ran⟩ := except_bind_eq_ok.mp ran
  obtain ⟨⟨step, next'⟩, pushed, first⟩ := except_bind_eq_ok.mp first
  obtain ⟨rfl, rfl⟩ := Prod.mk.inj (Except.ok.inj first)
  obtain ⟨⟨more, after⟩, rest, ran⟩ := except_bind_eq_ok.mp ran
  obtain ⟨rfl, rfl⟩ := Prod.mk.inj (Except.ok.inj ran)
  exact ⟨step, next', more, pushed, rest, rfl⟩

theorem run_keyString {escape last : List Char} {body : List Char} {steps : List StringStep}
    (ran : (strings json).run escape body = .ok (steps, last)) (unended : .ended ∉ steps) (key : String)
    (skipped : SkippedValue) :
    (characters json).run ⟨.keyString, key, escape, skipped⟩ body =
      .ok ([], ⟨.keyString, key ++ String.join (steps.filterMap StringStep.piece), last, skipped⟩) := by
  induction body generalizing escape steps key with
  | nil =>
    obtain ⟨rfl, rfl⟩ := Prod.mk.inj (Except.ok.inj ran)
    simp [String.join]
  | cons character body ih =>
    obtain ⟨step, next, more, pushed, rest, rfl⟩ := strings_cons ran
    have after := ih rest fun member => unended (mem_cons_of_mem _ member)
    cases step with
    | ended => exact absurd mem_cons_self unended
    | pending =>
      have stepped : (characters json).step ⟨.keyString, key, escape, skipped⟩ character =
          .ok ([], ⟨.keyString, key, next, skipped⟩) := by
        simp only [characters, consume, pushed, except_ok_bind]
      exact (characters json).run_cons_ok stepped (after key)
    | text piece =>
      have stepped : (characters json).step ⟨.keyString, key, escape, skipped⟩ character =
          .ok ([], ⟨.keyString, key ++ piece, next, skipped⟩) := by
        simp only [characters, consume, pushed, except_ok_bind]
      have told : key ++ piece ++ String.join (more.filterMap StringStep.piece) =
          key ++ String.join ((StringStep.text piece :: more).filterMap StringStep.piece) := by
        rw [← String.toList_inj]
        simp [StringStep.piece]
      rw [← told]
      exact (characters json).run_cons_ok stepped (after (key ++ piece))

theorem run_valueString {escape last : List Char} {body : List Char} {steps : List StringStep}
    (ran : (strings json).run escape body = .ok (steps, last)) (unended : .ended ∉ steps) (key : String)
    (skipped : SkippedValue) :
    (characters json).run ⟨.valueString, key, escape, skipped⟩ body =
      .ok ((steps.filterMap StringStep.piece).map (.delta key), ⟨.valueString, key, last, skipped⟩) := by
  induction body generalizing escape steps with
  | nil =>
    obtain ⟨rfl, rfl⟩ := Prod.mk.inj (Except.ok.inj ran)
    rfl
  | cons character body ih =>
    obtain ⟨step, next, more, pushed, rest, rfl⟩ := strings_cons ran
    have after := ih rest fun member => unended (mem_cons_of_mem _ member)
    cases step with
    | ended => exact absurd mem_cons_self unended
    | pending =>
      have stepped : (characters json).step ⟨.valueString, key, escape, skipped⟩ character =
          .ok ([], ⟨.valueString, key, next, skipped⟩) := by
        simp only [characters, consume, pushed, except_ok_bind]
      exact (characters json).run_cons_ok stepped after
    | text piece =>
      have stepped : (characters json).step ⟨.valueString, key, escape, skipped⟩ character =
          .ok ([.delta key piece], ⟨.valueString, key, next, skipped⟩) := by
        simp only [characters, consume, pushed, except_ok_bind]
      exact (characters json).run_cons_ok stepped after

theorem run_skipValue {skipped last : SkippedValue} {text : List Char}
    (skips : skipAll skipped text = some last) (key : String) (string : List Char) :
    (characters json).run ⟨.skipValue, key, string, skipped⟩ text =
      .ok ([], ⟨.skipValue, key, string, last⟩) := by
  induction text generalizing skipped with
  | nil =>
    obtain rfl := Option.some.inj skips
    rfl
  | cons character text ih =>
    rw [skipAll] at skips
    split at skips
    · cases skips
    · rename_i inside
      have stepped : (characters json).step ⟨.skipValue, key, string, skipped⟩ character =
          .ok ([], ⟨.skipValue, key, string, skipped.observe character⟩) := by
        simp only [characters, consume, if_neg inside]
      exact (characters json).run_cons_ok stepped (ih skips)

/-- The machine behind a value. -/
structure AtEnd (fields : JsonStringFields) : Prop where
  place : fields.state = .afterValue ∨ fields.state = .skipValue ∧ fields.skipped = {}

theorem AtEnd.blank {fields : JsonStringFields} (atEnd : AtEnd fields) {text : List Char}
    (blank : Blank text) : (characters json).run fields text = .ok ([], fields) := by
  rcases atEnd.place with after | ⟨skips, nothing⟩
  · exact run_blank (by rw [after]; rfl) blank
  · obtain ⟨state, key, string, skipped⟩ := fields
    obtain rfl : state = .skipValue := skips
    obtain rfl : skipped = {} := nothing
    exact run_skipValue (skip_blank blank 0) key string

theorem AtEnd.terminal {fields : JsonStringFields} (atEnd : AtEnd fields) {character : Char}
    (ends : character = ',' ∨ character = '}') :
    (characters json).step fields character =
      .ok ([], { fields with state := .afterTerminal character }) := by
  obtain ⟨state, key, string, skipped⟩ := fields
  rcases atEnd.place with after | ⟨skips, nothing⟩
  · obtain rfl : state = .afterValue := after
    simp only [characters, consume, if_pos ends]
  · obtain rfl : state = .skipValue := skips
    obtain rfl : skipped = {} := nothing
    have terminal : (SkippedValue.mk 0 false false).terminal character = true := by
      rcases ends with rfl | rfl <;> rfl
    simp only [characters, consume, if_pos terminal]

theorem run_value (documented : json.Documented) {name : List Char} {item : Tree} {value : List Char}
    (text : ValueText item value) (string : List Char) (skipped : SkippedValue) :
    ∃ fields, (characters json).run ⟨.value, String.ofList name, string, skipped⟩ value =
      .ok (memberEvents (name, item), fields) ∧ AtEnd fields := by
  by_cases quoted : ∃ text, item = .string text
  · obtain ⟨told, rfl⟩ := quoted
    cases text with
    | string inside =>
      rename_i body
      obtain ⟨steps, ran, spells⟩ := run_body documented inside
      have opened : (characters json).step ⟨.value, String.ofList name, string, skipped⟩ '"' =
          .ok ([], ⟨.valueString, String.ofList name, [], skipped⟩) := by
        simp only [characters, consume, if_true]
      have closed : (characters json).step ⟨.valueString, String.ofList name, [], skipped⟩ '"' =
          .ok ([.ended (String.ofList name)], ⟨.afterValue, String.ofList name, [], skipped⟩) := by
        simp only [characters, consume, pushString, if_true, except_ok_bind]
      have whole := (characters json).run_cons_ok opened
        ((characters json).run_concat (run_valueString ran spells.unended _ skipped) closed)
      refine ⟨⟨.afterValue, String.ofList name, [], skipped⟩, ?_, ⟨.inl rfl⟩⟩
      rw [whole, spells.pieces, map_map]
      rfl
  · have other : ∀ text, item ≠ .string text := fun text same => quoted ⟨text, same⟩
    obtain ⟨first, rest, rfl, quote, visible, skips⟩ := skip_start text other
    have opened : (characters json).step ⟨.value, String.ofList name, string, skipped⟩ first =
        .ok ([], ⟨.skipValue, String.ofList name, string, .start first⟩) := by
      simp only [characters, consume, if_neg quote, visible, Bool.false_eq_true, if_false]
    refine ⟨⟨.skipValue, String.ofList name, string, {}⟩, ?_, ⟨.inr ⟨rfl, rfl⟩⟩⟩
    rw [memberEvents_other other]
    exact (characters json).run_cons_ok opened (run_skipValue skips _ _)

theorem run_member (documented : json.Documented) {name : List Char} {item : Tree}
    {before key between colon value after : List Char} (blanks : Blank before)
    (named : StringBody key name) (blanks' : Blank between) (blanks'' : Blank colon)
    (text : ValueText item value) (blanksAfter : Blank after) {fields : JsonStringFields}
    (atKey : fields.state = .key) :
    ∃ last, (characters json).run fields
        (before ++ '"' :: (key ++ '"' :: (between ++ ':' :: (colon ++ (value ++ after))))) =
      .ok (memberEvents (name, item), last) ∧ AtEnd last := by
  obtain ⟨state, old, string, skipped⟩ := fields
  obtain rfl : state = .key := atKey
  obtain ⟨steps, ran, spells⟩ := run_body documented named
  obtain ⟨last, valued, atEnd⟩ := run_value documented text [] skipped
  have opened : (characters json).step ⟨.key, old, string, skipped⟩ '"' =
      .ok ([], ⟨.keyString, "", [], skipped⟩) := by
    simp only [characters, consume, if_true]
  have spelt := run_keyString ran spells.unended "" skipped
  have told : "" ++ String.join (steps.filterMap StringStep.piece) = String.ofList name := by
    rw [spells.pieces, join_singletons, String.empty_append]
  rw [told] at spelt
  have closed : (characters json).step ⟨.keyString, String.ofList name, [], skipped⟩ '"' =
      .ok ([], ⟨.colon, String.ofList name, [], skipped⟩) := by
    simp only [characters, consume, pushString, if_true, except_ok_bind]
  have coloned : (characters json).step ⟨.colon, String.ofList name, [], skipped⟩ ':' =
      .ok ([], ⟨.value, String.ofList name, [], skipped⟩) := by
    simp only [characters, consume, if_true]
  have tail := (characters json).run_trans (run_blank rfl blanks'')
    ((characters json).run_trans valued (atEnd.blank blanksAfter))
  have whole := (characters json).run_trans (run_blank rfl blanks)
    ((characters json).run_cons_ok opened ((characters json).run_trans spelt
      ((characters json).run_cons_ok closed ((characters json).run_trans (run_blank rfl blanks')
        ((characters json).run_cons_ok coloned tail)))))
  refine ⟨last, ?_, atEnd⟩
  rw [whole]
  simp only [nil_append, append_nil]

theorem run_members (documented : json.Documented) {members : List (List Char × Tree)}
    {inside : List Char} (texts : MembersText members inside) {fields : JsonStringFields}
    (atKey : fields.state = .key) :
    ∃ last, (characters json).run fields (inside ++ ['}']) =
      .ok (members.flatMap memberEvents, last) ∧ last.state = .done := by
  match members, inside, texts with
  | _, _, .none blanks =>
    have closed : (characters json).step fields '}' = .ok ([], { fields with state := .done }) := by
      obtain ⟨state, key, string, skipped⟩ := fields
      obtain rfl : state = .key := atKey
      simp only [characters, consume, if_neg (show '}' ≠ '"' by decide), if_true]
    exact ⟨_, (characters json).run_concat (run_blank (by rw [atKey]; rfl) blanks) closed, rfl⟩
  | _, _, .one blanks named blanks' blanks'' text blanksAfter =>
    obtain ⟨last, ran, atEnd⟩ :=
      run_member documented blanks named blanks' blanks'' text blanksAfter atKey
    refine ⟨_, (characters json).run_concat ran (atEnd.terminal (.inr rfl)), rfl⟩
  | _, _, .more blanks named blanks' blanks'' text blanksAfter texts =>
    obtain ⟨between, ran, atEnd⟩ :=
      run_member documented blanks named blanks' blanks'' text blanksAfter atKey
    obtain ⟨last, rest, done⟩ :=
      @run_members documented _ _ texts { between with state := .key } rfl
    have whole := (characters json).run_trans ran
      ((characters json).run_cons_ok (atEnd.terminal (.inl rfl)) rest)
    refine ⟨last, ?_, done⟩
    rw [← nil_append (List.flatMap _ _)]
    simpa only [append_assoc, cons_append, flatMap_cons, nil_append] using whole

theorem run_document (documented : json.Documented) {members : List (List Char × Tree)}
    {text : List Char} (document : DocumentText (.object members) text) :
    ∃ last, (characters json).run {} text = .ok (members.flatMap memberEvents, last) := by
  obtain ⟨before, value, after, rfl, blanks, valued, blanks'⟩ := document.value
  cases valued with
  | @object _ inside texts =>
    have opened : (characters json).step {} '{' = .ok ([], { state := .key }) := rfl
    obtain ⟨last, ran, done⟩ := @run_members json documented _ _ texts { state := .key } rfl
    have whole := (characters json).run_trans (@run_blank json {} _ rfl blanks)
      ((characters json).run_trans ((characters json).run_cons_ok opened ran)
        (run_blank (by rw [done]; rfl) blanks'))
    refine ⟨last, ?_⟩
    rw [whole]
    simp only [nil_append, append_nil]

end Members

/-! ### The members of the value -/

theorem get_insertMember (fields : List (String × Value)) (field : String × Value) (name : String) :
    (Value.object (insertMember fields field)).get name =
      if field.1 = name then some field.2 else (Value.object fields).get name := by
  simp only [Value.get, insertMember, find?_append]
  by_cases same : field.1 = name
  · have gone : (fields.filter (·.1 ≠ field.1)).find? (·.1 = name) = none := by
      rw [find?_eq_none]
      intro other member
      rw [← same]
      simpa using (mem_filter.mp member).2
    rw [gone, if_pos same, Option.none_or, find?_singleton, if_pos (decide_eq_true same)]
    rfl
  · have kept : (fields.filter (·.1 ≠ field.1)).find? (·.1 = name) = fields.find? (·.1 = name) := by
      rw [find?_filter]
      congr 1
      funext other
      by_cases this : other.1 = name
      · simp [this, Ne.symm same]
      · simp [this]
    rw [kept, if_neg same, find?_singleton, if_neg (by simp [same]), Option.or_none]

theorem get_insertMembers (fields members : List (String × Value)) (name : String)
    (absent : name ∉ members.map Prod.fst) :
    (Value.object (members.foldl insertMember fields)).get name = (Value.object fields).get name := by
  induction members generalizing fields with
  | nil => rfl
  | cons member members ih =>
    rw [map_cons, mem_cons, not_or] at absent
    rw [foldl_cons, ih _ absent.2, get_insertMember, if_neg (Ne.symm absent.1)]

theorem get_insertMembers_last (fields before after : List (String × Value)) (field : String × Value)
    (last : field.1 ∉ after.map Prod.fst) :
    (Value.object ((before ++ field :: after).foldl insertMember fields)).get field.1 =
      some field.2 := by
  rw [foldl_append, foldl_cons, get_insertMembers _ _ _ last, get_insertMember, if_pos rfl]

theorem SerdeJson.memberValues_eq (json : SerdeJson) (members : List (List Char × Tree)) :
    json.memberValues members =
      members.map fun member => (String.ofList member.1, json.value member.2) := by
  induction members with
  | nil => rw [SerdeJson.memberValues]; rfl
  | cons member members ih => rw [SerdeJson.memberValues, SerdeJson.memberValue, ih, map_cons]

theorem SerdeJson.value_object (json : SerdeJson) (members : List (List Char × Tree)) :
    json.value (.object members) = .object
      ((members.map fun member => (String.ofList member.1, json.value member.2)).foldl insertMember []) := by
  rw [SerdeJson.value, json.memberValues_eq]

theorem get_asStr_member (json : SerdeJson) {members : List (List Char × Tree)}
    (distinct : (members.map Prod.fst).Nodup) {name : List Char} {item : Tree}
    (member : (name, item) ∈ members) :
    (json.value (.object members)).get (String.ofList name) = some (json.value item) := by
  obtain ⟨before, after, rfl⟩ := append_of_mem member
  rw [json.value_object, map_append, map_cons]
  refine get_insertMembers_last [] _ _ (String.ofList name, json.value item) fun again => ?_
  rw [map_map, mem_map] at again
  obtain ⟨other, listed, same⟩ := again
  have equal : other.1 = name := String.ofList_inj.mp same
  rw [map_append, map_cons, nodup_append] at distinct
  exact (nodup_cons.mp distinct.2.1).1 (mem_map.mpr ⟨other, listed, equal⟩)

theorem get_absent (json : SerdeJson) {members : List (List Char × Tree)} {name : String}
    (absent : name.toList ∉ members.map Prod.fst) :
    (json.value (.object members)).get name = none := by
  rw [json.value_object, get_insertMembers]
  · rfl
  · rw [map_map, mem_map]
    rintro ⟨member, listed, rfl⟩
    refine absent (mem_map.mpr ⟨member, listed, ?_⟩)
    rw [Function.comp_apply, String.toList_ofList]

/-! ### What is reported -/

theorem memberEvents_name {member : List Char × Tree} {event : StringFieldEvent}
    (listed : event ∈ memberEvents member) : event.name = String.ofList member.1 := by
  obtain ⟨name, item⟩ := member
  cases item with
  | null | bool _ | number _ | array _ | object _ => cases listed
  | string text =>
    rcases mem_append.mp listed with delta | ended
    · obtain ⟨character, -, rfl⟩ := mem_map.mp delta
      rfl
    · rw [mem_singleton.mp ended]
      rfl

theorem filter_absent {members : List (List Char × Tree)} {name : String}
    (absent : name.toList ∉ members.map Prod.fst) :
    (members.flatMap memberEvents).filter (·.name = name) = [] := by
  rw [filter_eq_nil_iff]
  intro event listed named
  obtain ⟨member, inside, from'⟩ := mem_flatMap.mp listed
  have same := (memberEvents_name from').symm.trans (of_decide_eq_true named)
  refine absent (mem_map.mpr ⟨member, inside, ?_⟩)
  rw [← same, String.toList_ofList]

theorem filter_member {members : List (List Char × Tree)} (distinct : (members.map Prod.fst).Nodup)
    {name : List Char} {item : Tree} (member : (name, item) ∈ members) :
    (members.flatMap memberEvents).filter (·.name = String.ofList name) = memberEvents (name, item) := by
  obtain ⟨before, after, rfl⟩ := append_of_mem member
  rw [map_append, map_cons, nodup_append, nodup_cons] at distinct
  obtain ⟨-, ⟨later, -⟩, apart⟩ := distinct
  have earlier : name ∉ before.map Prod.fst := fun listed => apart name listed name mem_cons_self rfl
  rw [flatMap_append, flatMap_cons, filter_append, filter_append,
    filter_absent (by rwa [String.toList_ofList]), filter_absent (by rwa [String.toList_ofList]),
    nil_append, append_nil, filter_eq_self]
  exact fun event listed => decide_eq_true (memberEvents_name listed)

/-- **Each string member is reported, and nothing else is**: of every name, the deltas join to the string
that the value has under it, and are followed by one end. -/
theorem feed_reports {json : SerdeJson} (documented : json.Documented)
    {members : List (List Char × Tree)} {text : List Char} {stream : List String}
    (document : DocumentText (.object members) text) (distinct : (members.map Prod.fst).Nodup)
    (split : (String.join stream).toList = text) :
    ∃ events last, (chunks json).run {} stream = .ok (events, last) ∧ ∀ name,
      match ((json.value (.object members)).get name).bind Value.asStr with
      | some told => Reports name told events
      | none => events.filter (·.name = name) = [] := by
  obtain ⟨last, ran⟩ := run_document documented document
  rw [← split] at ran
  obtain ⟨events, fed, merged⟩ := feed_of_run ran
  have silent : ∀ {name}, (members.flatMap memberEvents).filter (·.name = name) = [] →
      events.filter (·.name = name) = [] := by
    intro name nothing
    have here := merged.filter name
    rw [nothing] at here
    exact here.of_nil
  refine ⟨events, last, fed, fun name => ?_⟩
  by_cases named : name.toList ∈ members.map Prod.fst
  · obtain ⟨⟨name', item⟩, member, same⟩ := mem_map.mp named
    obtain rfl : name = String.ofList name' := by
      rw [← String.toList_inj, String.toList_ofList, ← same]
    have kept := filter_member distinct member
    rw [get_asStr_member json distinct member]
    cases item with
    | string text =>
      refine merged.reports ⟨text.map String.singleton, ?_, join_singletons text⟩
      rw [kept, map_map]
      rfl
    | null | bool _ | number _ | array _ | object _ => exact silent kept
  · rw [get_absent json named]
    exact silent (filter_absent named)

end Byok
