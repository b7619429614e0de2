/-
**The strings of a streamed object.**

`JsonString` reads a string character by character and gives its text in pieces: over the inside of a string
it spells the text that the grammar says (`run_body`), whatever escapes it is written with (`run_escape`).
-/

import Byok.Cursor.Protocol.JsonStream

namespace Byok

open Library Library.Json List

/-! ### Steps -/

/-- The machine of one string: it gives its steps, and the state is the escape that is begun. -/
def strings (json : SerdeJson) : Transducer (List Char) Char StringStep Error :=
  ⟨fun escape character => do
    let (step, escape) ← pushString json escape character
    .ok ([step], escape), fun _ => .ok []⟩

/-- The piece of text of a step. -/
def StringStep.piece : StringStep → Option String
  | .text piece => some piece
  | _ => none

/-- Steps that spell a text, and do not come to its end. -/
structure Spells (steps : List StringStep) (text : List Char) : Prop where
  unended : .ended ∉ steps
  pieces : steps.filterMap StringStep.piece = text.map String.singleton

theorem Spells.append {steps steps' : List StringStep} {text text' : List Char}
    (first : Spells steps text) (second : Spells steps' text') :
    Spells (steps ++ steps') (text ++ text') where
  unended member := (mem_append.mp member).elim first.unended second.unended
  pieces := by rw [filterMap_append, map_append, first.pieces, second.pieces]

theorem Spells.nil : Spells [] [] := ⟨not_mem_nil, rfl⟩

theorem Spells.pending : Spells [.pending] [] := ⟨by decide, rfl⟩

theorem Spells.text (character : Char) : Spells [.text (String.singleton character)] [character] :=
  ⟨by simp, rfl⟩

section Strings

variable {json : SerdeJson}

theorem pushString_pending {escape : List Char} {character : Char} (begun : escape ≠ [])
    (incomplete : escapeComplete (escape ++ [character]) = some false) :
    (strings json).step escape character = .ok ([.pending], escape ++ [character]) := by
  show (do let (step, escape) ← pushString json escape character; .ok ([step], escape)) = _
  simp only [pushString, if_neg begun, incomplete, except_ok_bind]

theorem pushString_complete {escape : List Char} {character last : Char} (begun : escape ≠ [])
    (complete : escapeComplete (escape ++ [last]) = some true) (documented : json.Documented)
    (denotes : Escape (escape ++ [last]) character) :
    (strings json).step escape last = .ok ([.text (String.singleton character)], []) := by
  have decoded : json.stringFromStr (String.ofList ('"' :: ((escape ++ [last]) ++ ['"']))) =
      .ok (String.singleton character) := by
    rw [SerdeJson.stringFromStr, documented.escapes denotes]
    rfl
  show (do let (step, escape) ← pushString json escape last; .ok ([step], escape)) = _
  simp only [pushString, if_neg begun, complete, decoded, except_ok_bind]

theorem pushString_backslash : (strings json).step [] '\\' = .ok ([.pending], ['\\']) := rfl

/-! ### Escapes of units -/

theorem utf8Size_of_isHexDigit {character : Char} (hex : isHexDigit character = true) :
    character.utf8Size = 1 := by
  have small : character.toNat ≤ 127 := by
    simp only [isHexDigit, Char.isDigit, Bool.or_eq_true, Bool.and_eq_true, decide_eq_true_eq] at hex
    rcases hex with (⟨-, low⟩ | ⟨-, low⟩) | ⟨-, low⟩
    · exact Nat.le_trans (UInt32.le_iff_toNat_le.mp low) (by decide)
    · exact Nat.le_trans (Char.le_def.mp low) (by decide)
    · exact Nat.le_trans (Char.le_def.mp low) (by decide)
  exact Char.utf8Size_eq_one_iff.mpr small

theorem escapeComplete_unit {digits : List Char} (small : ∀ digit ∈ digits, digit.utf8Size = 1)
    (short : digits.length < 10)
    (high : digits.length = 4 → digits.all isHexDigit = true → isHighSurrogate (hexValue digits) = true) :
    escapeComplete ('\\' :: 'u' :: digits) = some false := by
  have bytes : byteLength ('\\' :: 'u' :: digits) = digits.length + 2 := by
    have ones : digits.map Char.utf8Size = List.replicate digits.length 1 :=
      map_eq_replicate_iff.mpr small
    have two : '\\'.utf8Size = 1 ∧ 'u'.utf8Size = 1 := by decide
    rw [byteLength, map_cons, map_cons, ones, sum_cons, sum_cons,
      sum_replicate_nat, two.1, two.2]
    omega
  have starts : ['\\', 'u'].isPrefixOf ('\\' :: 'u' :: digits) = true := rfl
  have single : isUnitPair ('\\' :: 'u' :: digits) = false := by
    have length : (('\\' :: 'u' :: digits).length == 12) = false := by
      simp only [length_cons, beq_eq_false_iff_ne]
      omega
    rw [isUnitPair, length, Bool.false_and, Bool.false_and]
  rw [escapeComplete]
  by_cases unit : isUnit ('\\' :: 'u' :: digits) = true
  · rw [if_pos unit]
    simp only [isUnit, Bool.and_eq_true, beq_iff_eq] at unit
    show some (!isHighSurrogate (hexValue digits)) = some false
    rw [high unit.1 unit.2, Bool.not_true]
  · rw [if_neg unit, starts, bytes, single]
    by_cases four : digits.length < 4
    · rw [if_pos (by simp only [Bool.true_and, decide_eq_true_eq]; omega)]
    · rw [if_neg (by simp only [Bool.true_and, decide_eq_true_eq]; omega), if_neg (by decide),
        if_pos (by simp only [Bool.true_and, decide_eq_true_eq]; omega)]

theorem run_unit {done digits : List Char} (small : ∀ digit ∈ done ++ digits, digit.utf8Size = 1)
    (short : (done ++ digits).length < 10)
    (high : ∀ four rest, done ++ digits = four ++ rest → four.length = 4 → four.all isHexDigit = true →
      isHighSurrogate (hexValue four) = true) :
    ∃ steps, (strings json).run ('\\' :: 'u' :: done) digits =
      .ok (steps, '\\' :: 'u' :: (done ++ digits)) ∧ Spells steps [] := by
  induction digits generalizing done with
  | nil => exact ⟨[], by rw [append_nil]; rfl, .nil⟩
  | cons digit digits ih =>
    rw [append_cons] at small short high ⊢
    obtain ⟨steps, ran, spells⟩ := ih small short high
    have incomplete : escapeComplete (('\\' :: 'u' :: done) ++ [digit]) = some false := by
      refine @escapeComplete_unit (done ++ [digit])
        (fun digit member => small digit (mem_append_left _ member)) ?_ fun four hex => ?_
      · rw [length_append] at short
        omega
      · exact high _ _ rfl four hex
    exact ⟨_, (strings json).run_cons_ok (pushString_pending (cons_ne_nil _ _) incomplete) ran,
      Spells.pending.append spells⟩

theorem four_digits {digits : List Char} (four : digits.length = 4) :
    ∃ start last, digits = start ++ [last] ∧ start.length = 3 := by
  rcases eq_nil_or_concat' digits with rfl | ⟨start, last, rfl⟩
  · exact absurd four (by decide)
  · exact ⟨start, last, rfl, by simpa using four⟩

theorem utf8Size_of_all {digits : List Char} (hex : digits.all isHexDigit = true) :
    ∀ digit ∈ digits, digit.utf8Size = 1 :=
  fun digit member => utf8Size_of_isHexDigit (all_eq_true.mp hex digit member)

theorem length_le_byteLength (text : List Char) : text.length ≤ byteLength text := by
  induction text with
  | nil => exact Nat.le_refl _
  | cons character text ih =>
    have one := Char.utf8Size_pos character
    simp only [byteLength, map_cons, sum_cons, length_cons] at ih ⊢
    omega

theorem escapeComplete_single {digits : List Char} (four : digits.length = 4)
    (hex : digits.all isHexDigit = true) (plain : isHighSurrogate (hexValue digits) = false) :
    escapeComplete ('\\' :: 'u' :: digits) = some true := by
  have unit : isUnit ('\\' :: 'u' :: digits) = true := by
    rw [isUnit, hex, four]
    rfl
  rw [escapeComplete, if_pos unit]
  show some (!isHighSurrogate (hexValue digits)) = some true
  rw [plain, Bool.not_false]

theorem escapeComplete_pair {first second : List Char} (four : first.length = 4)
    (hex : first.all isHexDigit = true) (four' : second.length = 4)
    (hex' : second.all isHexDigit = true) :
    escapeComplete ('\\' :: 'u' :: (first ++ '\\' :: 'u' :: second)) = some true := by
  generalize equal : '\\' :: 'u' :: (first ++ '\\' :: 'u' :: second) = whole
  have length : whole.length = 12 := by
    rw [← equal, length_cons, length_cons, length_append, length_cons,
      length_cons, four, four']
  have front : whole.take 6 = '\\' :: 'u' :: first := by simp [← equal, ← four]
  have back : whole.drop 6 = '\\' :: 'u' :: second := by simp [← equal, ← four]
  have single : isUnit whole = false := by
    have inside : ((first ++ '\\' :: 'u' :: second).length == 4) = false := by
      rw [length_append, length_cons, length_cons, four, four']
      rfl
    rw [← equal, isUnit, inside, Bool.false_and]
  have double : isUnitPair whole = true := by
    rw [isUnitPair, front, back, length, isUnit, isUnit, four, hex, four', hex']
    rfl
  have long : ¬ byteLength whole < 6 := by
    have := length_le_byteLength whole
    omega
  rw [escapeComplete, if_neg (by rw [single]; decide), if_neg (by simp [long]), if_pos double]

theorem run_units (documented : json.Documented) {digits : List Char} {last character : Char}
    (small : ∀ digit ∈ digits, digit.utf8Size = 1) (short : digits.length < 10)
    (high : ∀ four rest, digits = four ++ rest → four.length = 4 → four.all isHexDigit = true →
      isHighSurrogate (hexValue four) = true)
    (complete : escapeComplete ('\\' :: 'u' :: (digits ++ [last])) = some true)
    (denotes : Escape ('\\' :: 'u' :: (digits ++ [last])) character) :
    ∃ steps, (strings json).run [] ('\\' :: 'u' :: (digits ++ [last])) = .ok (steps, []) ∧
      Spells steps [character] := by
  have letter : (strings json).step ['\\'] 'u' = .ok ([.pending], ['\\', 'u']) :=
    pushString_pending (cons_ne_nil _ _) (by decide)
  obtain ⟨steps, ran, spells⟩ := @run_unit json [] _ small short high
  refine ⟨_, (strings json).run_cons_ok pushString_backslash ((strings json).run_cons_ok letter
    ((strings json).run_concat ran
      (pushString_complete (cons_ne_nil _ _) complete documented denotes))), ?_⟩
  exact Spells.pending.append (Spells.pending.append (spells.append (Spells.text character)))

theorem isHighSurrogate_toNat (character : Char) : isHighSurrogate character.toNat = false := by
  have valid := character.valid
  simp only [isHighSurrogate, Bool.and_eq_false_iff, decide_eq_false_iff_not]
  show ¬ 55296 ≤ character.val.toNat ∨ ¬ character.val.toNat ≤ 56319
  simp only [UInt32.isValidChar, Nat.isValidChar] at valid
  omega

/-! ### Texts -/

theorem run_escape (documented : json.Documented) {escape : List Char} {character : Char}
    (denotes : Escape escape character) :
    ∃ steps, (strings json).run [] escape = .ok (steps, []) ∧ Spells steps [character] := by
  cases id denotes with
  | @short letter _ listed =>
    have complete : escapeComplete (['\\'] ++ [letter]) = some true := by
      simp only [shortEscapes, mem_cons, Prod.mk.injEq, not_mem_nil, or_false] at listed
      rcases listed with ⟨rfl, -⟩ | ⟨rfl, -⟩ | ⟨rfl, -⟩ | ⟨rfl, -⟩ | ⟨rfl, -⟩ | ⟨rfl, -⟩ | ⟨rfl, -⟩ |
        ⟨rfl, -⟩ <;> decide
    exact ⟨_, (strings json).run_cons_ok pushString_backslash ((strings json).run_cons_ok
      (pushString_complete (cons_ne_nil _ _) complete documented denotes)
      ((strings json).run_nil _)), Spells.pending.append (Spells.text character)⟩
  | @unit digits _ four hex value =>
    have complete := escapeComplete_single four hex (by rw [← value]; exact isHighSurrogate_toNat character)
    have small := utf8Size_of_all hex
    obtain ⟨start, last, rfl, three⟩ := four_digits four
    refine run_units documented (fun digit member => small digit (mem_append_left _ member))
      (by rw [three]; decide) (fun four rest split length => ?_) complete denotes
    rw [split, length_append] at three
    omega
  | @pair first second _ four hex high four' hex' low value =>
    have complete := escapeComplete_pair four hex four' hex'
    have small := utf8Size_of_all hex'
    obtain ⟨start, last, rfl, three⟩ := four_digits four'
    have split : first ++ '\\' :: 'u' :: (start ++ [last]) = (first ++ '\\' :: 'u' :: start) ++ [last] := by
      rw [append_assoc, cons_append, cons_append]
    rw [split] at complete denotes ⊢
    refine run_units documented (fun digit member => ?_) ?_ (fun digits rest same length _ => ?_)
      complete denotes
    · rcases mem_append.mp member with inside | inside
      · exact utf8Size_of_all hex digit inside
      · rcases mem_cons.mp inside with rfl | inside
        · decide
        · rcases mem_cons.mp inside with rfl | inside
          · decide
          · exact small digit (mem_append_left _ inside)
    · rw [length_append, length_cons, length_cons, four, three]
      decide
    · obtain ⟨rfl, -⟩ := append_inj same.symm (length.trans four.symm)
      exact high

/-- **The inside of a string spells its text.** -/
theorem run_body (documented : json.Documented) {body text : List Char} (string : StringBody body text) :
    ∃ steps, (strings json).run [] body = .ok (steps, []) ∧ Spells steps text := by
  induction string with
  | nil => exact ⟨[], rfl, .nil⟩
  | @plain character body text stands rest ih =>
    obtain ⟨steps, ran, spells⟩ := ih
    have taken : (strings json).step [] character = .ok ([.text (String.singleton character)], []) := by
      simp only [isPlain, Bool.and_eq_true, decide_eq_true_eq, bne_iff_ne, ne_eq] at stands
      have control : ¬ character < ' ' := fun less => by
        have : character.toNat < 32 := Char.lt_def.mp less
        omega
      show (do let (step, escape) ← pushString json [] character; .ok ([step], escape)) = _
      rw [pushString, if_pos rfl, if_neg stands.1.2, if_neg stands.2, if_neg control, except_ok_bind]
    exact ⟨_, (strings json).run_cons_ok taken ran, (Spells.text character).append spells⟩
  | escape denotes rest ih =>
    obtain ⟨first, before, spells⟩ := run_escape documented denotes
    obtain ⟨steps, ran, spells'⟩ := ih
    exact ⟨first ++ steps, (strings json).run_trans before ran, spells.append spells'⟩

end Strings

end Byok
