/-
**Varints on the Devin wire.** `server/src/devin/wire.rs`.

* `encodeVarint`, `decodeVarint` — the functions of the source.
* `decodeVarint_iff` — a varint is read exactly where a spelling of at most ten bytes stands, of a number
  of 64 bits.
-/

import Byok.Library.Varint
import Byok.Model.Message
import Mathlib.Tactic.Ring

namespace Byok.Devin

open Library Library.Varint

def encodeVarint (value : UInt64) : List UInt8 :=
  if large : 0x80 ≤ value then ((value.toUInt8 &&& 0x7f) ||| 0x80) :: encodeVarint (value >>> 7)
  else [value.toUInt8]
termination_by value.toNat
decreasing_by
  have large : 128 ≤ value.toNat := by simpa using UInt64.le_iff_toNat_le.mp large
  rw [UInt64.toNat_shiftRight]
  simp only [UInt64.reduceToNat, Nat.reduceMod, Nat.shiftRight_eq_div_pow]
  omega

/-- The loop of `decode_varint`, with `left` bytes to go. The bits of a byte never leave the 64 bits of the
value: the tenth byte has only one. -/
def decodeVarintFrom (payload : List UInt8) (value offset : Nat) : Nat → Except Error (Nat × Nat)
  | 0 => .error (.protocol "unterminated Devin protobuf varint")
  | left + 1 =>
    match payload[offset]? with
    | none => .error (.protocol "truncated Devin protobuf varint")
    | some byte =>
      if left = 0 ∧ 1 < byte then .error (.protocol "Devin protobuf varint overflow")
      else
        let value := value ||| ((byte &&& 0x7f).toNat <<< (7 * (9 - left)))
        if byte &&& 0x80 = 0 then .ok (value, offset + 1)
        else decodeVarintFrom payload value (offset + 1) left

def decodeVarint (payload : List UInt8) (offset : Nat) : Except Error (Nat × Nat) :=
  decodeVarintFrom payload 0 offset 10

/-! ### Bits -/

theorem encodeVarint_eq (value : UInt64) : encodeVarint value = encode value.toNat := by
  induction known : value.toNat using Nat.strongRecOn generalizing value with
  | ind n ih =>
    subst known
    rw [encodeVarint]
    have shifted : (value >>> 7).toNat = value.toNat / 128 := by
      rw [UInt64.toNat_shiftRight]
      simp [Nat.shiftRight_eq_div_pow]
    by_cases large : 0x80 ≤ value
    · have big : 128 ≤ value.toNat := by simpa using UInt64.le_iff_toNat_le.mp large
      rw [dif_pos large, encode_large big, ih _ (by rw [shifted]; omega) (value >>> 7) rfl, shifted]
      congr 1
      rw [← UInt8.toNat_inj, toNat_ofNat (by omega), UInt8.toNat_or, UInt8.toNat_and,
        UInt64.toNat_toUInt8]
      have low := Nat.and_two_pow_sub_one_eq_mod (value.toNat % 256) 7
      have high := Nat.two_pow_add_eq_or_of_lt (i := 7) (b := value.toNat % 128) (by omega) 1
      simp only [UInt8.reduceToNat, Nat.reducePow, Nat.reduceSub] at low high ⊢
      rw [low, show value.toNat % 256 % 128 = value.toNat % 128 by omega, Nat.or_comm, ← high]
      omega
    · have small : value.toNat < 128 := by
        have := UInt64.le_iff_toNat_le.not.mp large
        simpa using this
      rw [dif_neg large, encode_small small]
      rfl

theorem low_bits (byte : UInt8) : (byte &&& 0x7f).toNat = byte.toNat % 128 := by
  have low := Nat.and_two_pow_sub_one_eq_mod byte.toNat 7
  rw [UInt8.toNat_and]
  simpa using low

theorem high_bit (byte : UInt8) : byte &&& 0x80 = 0 ↔ byte.toNat < 128 := by
  have below := byte.toNat_lt
  have all : ∀ n : Fin 256, n.val &&& 128 = 0 ↔ n.val < 128 := by decide +kernel
  rw [← UInt8.toNat_inj, UInt8.toNat_and]
  exact all ⟨byte.toNat, below⟩

theorem or_shift {value bits place : Nat} (below : value < 2 ^ place) :
    value ||| (bits <<< place) = value + 2 ^ place * bits := by
  rw [Nat.shiftLeft_eq, Nat.or_comm, Nat.mul_comm, ← Nat.two_pow_add_eq_or_of_lt below, Nat.add_comm]

theorem group_lt {value bits place : Nat} (below : value < 2 ^ place) (small : bits < 128) :
    value + 2 ^ place * bits < 2 ^ (place + 7) := by
  calc value + 2 ^ place * bits < 2 ^ place + 2 ^ place * bits := Nat.add_lt_add_right below _
    _ = 2 ^ place * (bits + 1) := by rw [Nat.mul_succ, Nat.add_comm]
    _ ≤ 2 ^ place * 128 := Nat.mul_le_mul_left _ small
    _ = 2 ^ (place + 7) := by rw [Nat.pow_add]

/-! ### Reading -/

theorem drop_cons_iff {payload rest : List UInt8} {offset : Nat} {byte : UInt8} :
    payload.drop offset = byte :: rest ↔ payload[offset]? = some byte ∧ payload.drop (offset + 1) = rest := by
  constructor
  · intro split
    refine ⟨?_, ?_⟩
    · rw [← Nat.add_zero offset, ← List.getElem?_drop, split]
      rfl
    · rw [← List.drop_drop, split]
      rfl
  · rintro ⟨here, rfl⟩
    obtain ⟨inside, rfl⟩ := List.getElem?_eq_some_iff.mp here
    exact List.drop_eq_getElem_cons inside

theorem decodeVarintFrom_sound {payload : List UInt8} {left value offset result next : Nat}
    (start : left ≤ 10) (below : value < 2 ^ (7 * (10 - left)))
    (read : decodeVarintFrom payload value offset left = .ok (result, next)) :
    ∃ bytes number, Spelling bytes number ∧ payload.drop offset = bytes ++ payload.drop next ∧
      bytes.length ≤ left ∧ next = offset + bytes.length ∧
      result = value + 2 ^ (7 * (10 - left)) * number ∧ result < 2 ^ 64 := by
  induction left generalizing value offset with
  | zero => cases read
  | succ left ih =>
    rw [decodeVarintFrom] at read
    split at read
    · cases read
    · rename_i byte here
      split at read
      · cases read
      · rename_i fits
        have place : 10 - (left + 1) = 9 - left := by omega
        have byteBelow := byte.toNat_lt
        rw [place] at below ⊢
        rw [low_bits, or_shift below] at read
        split at read
        · rename_i ends
          have small := (high_bit byte).mp ends
          obtain ⟨rfl, rfl⟩ := Prod.mk.inj (Except.ok.inj read)
          rw [Nat.mod_eq_of_lt small]
          refine ⟨[byte], byte.toNat, .last small, drop_cons_iff.mpr ⟨here, rfl⟩, by simp, rfl, rfl, ?_⟩
          rcases Nat.eq_zero_or_pos left with rfl | positive
          · have one : byte.toNat ≤ 1 := Nat.le_of_not_lt fun more => fits ⟨rfl, UInt8.lt_iff_toNat_lt.mpr more⟩
            omega
          · exact Nat.lt_of_lt_of_le (group_lt below small)
              (Nat.pow_le_pow_right (by decide) (by omega))
        · rename_i goes
          have large : 128 ≤ byte.toNat := Nat.le_of_not_lt fun small => goes ((high_bit byte).mpr small)
          have positive : 0 < left := by
            refine Nat.pos_of_ne_zero fun none => fits ⟨none, UInt8.lt_iff_toNat_lt.mpr ?_⟩
            exact Nat.lt_of_lt_of_le (by decide) large
          have further : 7 * (9 - left) + 7 = 7 * (10 - left) := by omega
          obtain ⟨bytes, number, spelt, split, short, reached, equal, bound⟩ := ih (by omega)
            (by rw [← further]; exact group_lt below (Nat.mod_lt _ (by decide))) read
          refine ⟨byte :: bytes, _, .more large spelt, ?_, Nat.succ_le_succ short, ?_, ?_, bound⟩
          · exact drop_cons_iff.mpr ⟨here, split⟩
          · rw [reached, List.length_cons]
            omega
          · rw [equal, ← further, Nat.pow_add, Nat.mul_add, show byte.toNat % 128 = byte.toNat - 128 by omega]
            ring

theorem decodeVarintFrom_complete {payload rest bytes : List UInt8} {left value offset number : Nat}
    (start : left ≤ 10) (below : value < 2 ^ (7 * (10 - left))) (spelt : Spelling bytes number)
    (split : payload.drop offset = bytes ++ rest) (short : bytes.length ≤ left)
    (fits : value + 2 ^ (7 * (10 - left)) * number < 2 ^ 64) :
    decodeVarintFrom payload value offset left =
      .ok (value + 2 ^ (7 * (10 - left)) * number, offset + bytes.length) := by
  induction spelt generalizing left value offset with
  | @last byte ends =>
    obtain ⟨left, rfl⟩ := Nat.exists_eq_add_of_le' short
    obtain ⟨here, -⟩ := drop_cons_iff.mp split
    have place : 10 - (left + 1) = 9 - left := by omega
    simp only [List.length_singleton, place] at below fits ⊢
    have guard : ¬ (left = 0 ∧ 1 < byte) := by
      rintro ⟨rfl, more⟩
      have := UInt8.lt_iff_toNat_lt.mp more
      simp at this fits
      omega
    rw [decodeVarintFrom, here]
    simp only [if_neg guard, low_bits, or_shift below, if_pos ((high_bit byte).mpr ends),
      Nat.mod_eq_of_lt ends]
  | @more byte bytes number goes spelt ih =>
    obtain ⟨left, rfl⟩ : ∃ n, left = n + 1 := ⟨left - 1, by simp at short; omega⟩
    obtain ⟨here, tail⟩ := drop_cons_iff.mp split
    have place : 10 - (left + 1) = 9 - left := by omega
    have byteBelow := byte.toNat_lt
    have some : 0 < bytes.length := List.length_pos_of_ne_nil spelt.ne_nil
    have positive : 0 < left := by
      simp only [List.length_cons] at short
      omega
    have further : 7 * (9 - left) + 7 = 7 * (10 - left) := by omega
    have whole : value + 2 ^ (7 * (9 - left)) * (byte.toNat % 128) + 2 ^ (7 * (10 - left)) * number =
        value + 2 ^ (7 * (9 - left)) * (byte.toNat - 128 + 128 * number) := by
      rw [← further, Nat.pow_add, Nat.mul_add, show byte.toNat % 128 = byte.toNat - 128 by omega]
      ring
    simp only [place] at below fits ⊢
    rw [decodeVarintFrom, here]
    simp only [if_neg (fun both : left = 0 ∧ 1 < byte => positive.ne' both.1), low_bits, or_shift below,
      if_neg (fun ends => absurd ((high_bit byte).mp ends) (by omega))]
    rw [ih (by omega) (by rw [← further]; exact group_lt below (Nat.mod_lt _ (by decide))) tail
      (Nat.le_of_succ_le_succ short) (by rw [whole]; exact fits), whole, List.length_cons]
    congr 2
    omega

/-- **A varint is read exactly where a spelling stands**, of at most ten bytes and of a number of 64 bits. -/
theorem decodeVarint_iff {payload : List UInt8} {offset value next : Nat} :
    decodeVarint payload offset = .ok (value, next) ↔
      ∃ bytes, Spelling bytes value ∧ payload.drop offset = bytes ++ payload.drop next ∧
        bytes.length ≤ 10 ∧ next = offset + bytes.length ∧ value < 2 ^ 64 := by
  constructor
  · intro read
    obtain ⟨bytes, number, spelt, split, short, reached, equal, bound⟩ :=
      decodeVarintFrom_sound (Nat.le_refl 10) (by decide) read
    obtain rfl : value = number := by simpa using equal
    exact ⟨bytes, spelt, split, short, reached, bound⟩
  · rintro ⟨bytes, spelt, split, short, rfl, bound⟩
    have small : 0 < 2 ^ (7 * (10 - 10)) := by decide
    have read := decodeVarintFrom_complete (Nat.le_refl 10) small spelt split short (by simpa using bound)
    simpa [decodeVarint] using read

end Byok.Devin
