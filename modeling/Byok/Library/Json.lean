/-
**JSON texts.**

The grammar of JSON, over lists of characters: which texts denote which syntax trees (`DocumentText`).
Objects keep their members in the order of the text, with repeated names. Half of a surrogate pair
denotes no character.
-/

import Mathlib.Data.List.Basic
import Mathlib.Tactic.Common

namespace Byok.Library.Json

/-! ### Characters -/

/-- The blanks between tokens. -/
def isBlank (character : Char) : Bool :=
  character == ' ' || character == '\t' || character == '\n' || character == '\r'

def Blank (text : List Char) : Prop := ∀ character ∈ text, isBlank character = true

def isHexDigit (character : Char) : Bool :=
  character.isDigit || ('a' ≤ character && character ≤ 'f') || ('A' ≤ character && character ≤ 'F')

def hexDigitValue (character : Char) : Nat :=
  if character.isDigit then character.toNat - '0'.toNat
  else if 'a' ≤ character ∧ character ≤ 'f' then character.toNat - 'a'.toNat + 10
  else character.toNat - 'A'.toNat + 10

def hexValue (digits : List Char) : Nat :=
  digits.foldl (fun value digit => 16 * value + hexDigitValue digit) 0

/-- The first half of a surrogate pair. -/
def isHighSurrogate (code : Nat) : Bool := 0xD800 ≤ code && code ≤ 0xDBFF

/-- The second half. -/
def isLowSurrogate (code : Nat) : Bool := 0xDC00 ≤ code && code ≤ 0xDFFF

/-- The character of a surrogate pair. -/
def surrogatePair (high low : Nat) : Nat := 0x10000 + (high - 0xD800) * 0x400 + (low - 0xDC00)

/-! ### Strings -/

/-- The escapes of one letter, with the characters that they denote. -/
def shortEscapes : List (Char × Char) :=
  [('"', '"'), ('\\', '\\'), ('/', '/'), ('b', '\x08'), ('f', '\x0c'), ('n', '\n'), ('r', '\r'),
    ('t', '\t')]

/-- An escape and the character that it denotes. -/
inductive Escape : List Char → Char → Prop
  | short {letter character : Char} (listed : (letter, character) ∈ shortEscapes) :
      Escape ['\\', letter] character
  | unit {digits : List Char} {character : Char} (four : digits.length = 4)
      (hex : digits.all isHexDigit = true) (value : character.toNat = hexValue digits) :
      Escape ('\\' :: 'u' :: digits) character
  | pair {first second : List Char} {character : Char} (four : first.length = 4)
      (hex : first.all isHexDigit = true) (high : isHighSurrogate (hexValue first) = true)
      (four' : second.length = 4) (hex' : second.all isHexDigit = true)
      (low : isLowSurrogate (hexValue second) = true)
      (value : character.toNat = surrogatePair (hexValue first) (hexValue second)) :
      Escape ('\\' :: 'u' :: (first ++ '\\' :: 'u' :: second)) character

/-- What may stand in a string as it is. -/
def isPlain (character : Char) : Bool :=
  0x20 ≤ character.toNat && character != '"' && character != '\\'

/-- The inside of a string and the text that it denotes. -/
inductive StringBody : List Char → List Char → Prop
  | nil : StringBody [] []
  | plain {character : Char} {body text : List Char} (stands : isPlain character = true)
      (rest : StringBody body text) : StringBody (character :: body) (character :: text)
  | escape {escape : List Char} {character : Char} {body text : List Char}
      (denotes : Escape escape character) (rest : StringBody body text) :
      StringBody (escape ++ body) (character :: text)

/-! ### Numbers -/

def Digits (text : List Char) : Prop := text ≠ [] ∧ text.all Char.isDigit = true

/-- The text of a number. -/
structure NumberText (text : List Char) : Prop where
  parts : ∃ sign whole fraction exponent, text = sign ++ whole ++ fraction ++ exponent ∧
    (sign = [] ∨ sign = ['-']) ∧
    (whole = ['0'] ∨ Digits whole ∧ whole.head? ≠ some '0') ∧
    (fraction = [] ∨ ∃ digits, Digits digits ∧ fraction = '.' :: digits) ∧
    (exponent = [] ∨ ∃ letter sign digits, (letter = 'e' ∨ letter = 'E') ∧
      (sign = [] ∨ sign = ['+'] ∨ sign = ['-']) ∧ Digits digits ∧ exponent = letter :: (sign ++ digits))

theorem NumberText.ne_nil {text : List Char} (number : NumberText text) : text ≠ [] := by
  obtain ⟨sign, whole, fraction, exponent, rfl, -, wholed, -, -⟩ := number.parts
  have some : whole ≠ [] := by
    rcases wholed with rfl | ⟨digits, -⟩
    · exact List.cons_ne_nil _ _
    · exact digits.1
  simp only [ne_eq, List.append_eq_nil_iff, not_and]
  exact fun nil => absurd nil.1.2 some

/-! ### Values -/

/-- The syntax tree of a value. A number keeps its text. -/
inductive Tree where
  | null
  | bool (value : Bool)
  | number (text : List Char)
  | string (text : List Char)
  | array (items : List Tree)
  | object (members : List (List Char × Tree))

mutual

/-- The texts of a value. -/
inductive ValueText : Tree → List Char → Prop
  | null : ValueText .null ['n', 'u', 'l', 'l']
  | true : ValueText (.bool true) ['t', 'r', 'u', 'e']
  | false : ValueText (.bool false) ['f', 'a', 'l', 's', 'e']
  | number {text : List Char} (number : NumberText text) : ValueText (.number text) text
  | string {body text : List Char} (string : StringBody body text) :
      ValueText (.string text) ('"' :: (body ++ ['"']))
  | array {items : List Tree} {inside : List Char} (texts : ItemsText items inside) :
      ValueText (.array items) ('[' :: (inside ++ [']']))
  | object {members : List (List Char × Tree)} {inside : List Char}
      (texts : MembersText members inside) : ValueText (.object members) ('{' :: (inside ++ ['}']))

/-- The texts of the items of an array. -/
inductive ItemsText : List Tree → List Char → Prop
  | none {blank : List Char} (blanks : Blank blank) : ItemsText [] blank
  | one {item : Tree} {before value after : List Char} (blanks : Blank before)
      (text : ValueText item value) (blanks' : Blank after) :
      ItemsText [item] (before ++ (value ++ after))
  | more {item next : Tree} {items : List Tree} {before value after rest : List Char}
      (blanks : Blank before) (text : ValueText item value) (blanks' : Blank after)
      (texts : ItemsText (next :: items) rest) :
      ItemsText (item :: next :: items) (before ++ (value ++ (after ++ ',' :: rest)))

/-- The texts of the members of an object. -/
inductive MembersText : List (List Char × Tree) → List Char → Prop
  | none {blank : List Char} (blanks : Blank blank) : MembersText [] blank
  | one {name : List Char} {item : Tree} {before key between value : List Char}
      {after colon : List Char} (blanks : Blank before) (named : StringBody key name)
      (blanks' : Blank between) (blanks'' : Blank colon) (text : ValueText item value)
      (blanksAfter : Blank after) :
      MembersText [(name, item)]
        (before ++ '"' :: (key ++ '"' :: (between ++ ':' :: (colon ++ (value ++ after)))))
  | more {name : List Char} {item : Tree} {next : List Char × Tree}
      {members : List (List Char × Tree)} {before key between value after colon rest : List Char}
      (blanks : Blank before) (named : StringBody key name)
      (blanks' : Blank between) (blanks'' : Blank colon) (text : ValueText item value)
      (blanksAfter : Blank after) (texts : MembersText (next :: members) rest) :
      MembersText ((name, item) :: next :: members)
        (before ++ '"' :: (key ++ '"' :: (between ++ ':' :: (colon ++ (value ++ (after ++ ',' :: rest))))))

end

/-- The texts of a document: a value with blanks around it. -/
structure DocumentText (tree : Tree) (text : List Char) : Prop where
  value : ∃ before value after, text = before ++ (value ++ after) ∧ Blank before ∧
    ValueText tree value ∧ Blank after

end Byok.Library.Json
