/-
**Bytes in hexadecimal.**

Two digits a byte, the high one first.

* `decode_encode` — what is encoded is decoded.
* `alphanumeric_digit` — the digits are letters and figures, so that any other character can separate them from what
  follows.
-/

import Mathlib.Data.List.Basic
import Mathlib.Tactic.Common

namespace Byok.Library.Hex

/-- `char::from_digit` at the radix 16, for a number below 16. -/
def digit (value : Nat) : Char := if value < 10 then Char.ofNat (48 + value) else Char.ofNat (87 + value)

/-- `char::to_digit` at the radix 16. -/
def value (character : Char) : Option Nat :=
  let code := character.toNat
  if 48 ≤ code ∧ code ≤ 57 then some (code - 48)
  else if 97 ≤ code ∧ code ≤ 102 then some (code - 87)
  else if 65 ≤ code ∧ code ≤ 70 then some (code - 55)
  else none

/-- The two digits of a byte. -/
def byte (code : UInt8) : List Char := [digit (code.toNat / 16), digit (code.toNat % 16)]

/-- The digits of a list of bytes. -/
def encode (bytes : List UInt8) : List Char := bytes.flatMap byte

/-- The bytes of a list of digits. -/
def decode : List Char → Option (List UInt8)
  | [] => some []
  | [_] => none
  | high :: low :: rest => do
    let high ← value high
    let low ← value low
    let bytes ← decode rest
    some (UInt8.ofNat (high * 16 + low) :: bytes)

/-- `is_ascii_alphanumeric`. -/
def alphanumeric (character : Char) : Bool :=
  let code := character.toNat
  (48 ≤ code && code ≤ 57) || (97 ≤ code && code ≤ 122) || (65 ≤ code && code ≤ 90)

theorem value_digit {number : Nat} (small : number < 16) : value (digit number) = some number := by
  revert number
  decide

theorem alphanumeric_digit {number : Nat} (small : number < 16) : alphanumeric (digit number) = true := by
  revert number
  decide

theorem size_digit {number : Nat} (small : number < 16) : (digit number).utf8Size = 1 := by
  revert number
  decide

theorem mem_byte {code : UInt8} {character : Char} (listed : character ∈ byte code) :
    ∃ number < 16, character = digit number := by
  have small := code.toNat_lt
  rcases List.mem_pair.mp listed with rfl | rfl
  · exact ⟨_, by omega, rfl⟩
  · exact ⟨_, Nat.mod_lt _ (by decide), rfl⟩

theorem mem_encode {bytes : List UInt8} {character : Char} (listed : character ∈ encode bytes) :
    ∃ number < 16, character = digit number := by
  obtain ⟨code, -, listed⟩ := List.mem_flatMap.mp listed
  exact mem_byte listed

/-- **What is encoded is decoded.** -/
theorem decode_encode (bytes : List UInt8) : decode (encode bytes) = some bytes := by
  induction bytes with
  | nil => rfl
  | cons code bytes ih =>
    have small := code.toNat_lt
    have whole : code.toNat / 16 * 16 + code.toNat % 16 = code.toNat := by omega
    show decode (digit (code.toNat / 16) :: digit (code.toNat % 16) :: encode bytes) = _
    rw [decode, value_digit (by omega), value_digit (Nat.mod_lt _ (by decide)), ih]
    show some (UInt8.ofNat (code.toNat / 16 * 16 + code.toNat % 16) :: bytes) = _
    rw [whole, UInt8.ofNat_toNat]

end Byok.Library.Hex
