/-
**The Devin wire codec is a codec, and its envelopes are unambiguous.**

* `parse_serialize` — what is serialized is parsed as it was.
* `reserialize_le` — what is parsed is serialized in no more bytes.
* `unwrap_frame`, `declaredFlags_fields` — a frame is unwrapped; fields are never taken for one.
-/

import Byok.Devin.Wire

namespace Byok.Devin

open Library Library.Varint

/-! ### One field -/

theorem FieldValue.wireType_lt (value : FieldValue) : value.wireType.toNat < 8 := by
  cases value <;> simp [FieldValue.wireType]

theorem head_toNat (field : Field) :
    ((field.number.toUInt64 <<< 3) ||| field.value.wireType).toNat =
      8 * field.number.toNat + field.value.wireType.toNat := by
  have small := field.value.wireType_lt
  have below := field.number.toNat_lt
  have joined := Nat.two_pow_add_eq_or_of_lt (i := 3) (b := field.value.wireType.toNat) small
    field.number.toNat
  rw [UInt64.toNat_or, UInt64.toNat_shiftLeft, UInt32.toNat_toUInt64]
  simp only [UInt64.reduceToNat, Nat.reduceMod, Nat.shiftLeft_eq]
  rw [Nat.mod_eq_of_lt (by omega), Nat.mul_comm, ← joined]

theorem shift_head (head : Nat) : head >>> 3 = head / 8 := by
  rw [Nat.shiftRight_eq_div_pow]

theorem mask_head (head : Nat) : head &&& 7 = head % 8 := by
  simpa using Nat.and_two_pow_sub_one_eq_mod head 3

theorem decodeVarint_encodeVarint {payload rest : List UInt8} {offset : Nat} {value : UInt64}
    (split : payload.drop offset = encodeVarint value ++ rest) :
    decodeVarint payload offset = .ok (value.toNat, offset + (encodeVarint value).length) := by
  have below := value.toNat_lt
  refine decodeVarint_iff.mpr ⟨encodeVarint value, ?_, ?_, ?_, rfl, below⟩
  · rw [encodeVarint_eq]
    exact spelling_encode _
  · rw [← List.drop_drop, split, List.drop_left]
  · rw [encodeVarint_eq]
    exact encode_length_le (Nat.lt_of_lt_of_le below (by decide))

/-- A field that is read up to a place that fits a `usize`. -/
def Field.Within (field : Field) (offset : Nat) : Prop :=
  match field.value with
  | .varint _ => True
  | _ => offset + field.encoded.length ≤ usizeMax

theorem readArray_append {size : Nat} {payload rest : List UInt8} {offset : Nat} (value : Vector UInt8 size)
    (split : payload.drop offset = value.toList ++ rest) (fits : offset + size ≤ usizeMax) :
    readArray size payload offset = .ok (value, offset + size) := by
  have length : value.toList.length = size := by simp
  have taken : (payload.drop offset).take size = value.toList := by
    rw [split, List.take_left' length]
  rw [readArray, if_neg (by omega), dif_pos (by rw [taken]; exact length)]
  congr 2
  rw [← Vector.toArray_inj]
  simp only [taken]
  exact Array.toArray_toList

theorem readValue_encoded {payload rest : List UInt8} {offset : Nat} (value : FieldValue)
    (split : payload.drop offset = value.encoded ++ rest)
    (fits : (∃ number, value = .varint number) ∨ offset + value.encoded.length ≤ usizeMax) :
    readValue value.wireType.toNat payload offset = .ok (value, offset + value.encoded.length) := by
  cases value with
  | varint number =>
    show (decodeVarint payload offset).map _ = _
    rw [decodeVarint_encodeVarint split]
    simp [Except.map, FieldValue.encoded]
  | fixed64 value =>
    have within : offset + 8 ≤ usizeMax := by
      rcases fits with ⟨number, other⟩ | fits
      · cases other
      · simpa [FieldValue.encoded] using fits
    show (readArray 8 payload offset).map _ = _
    rw [readArray_append value split within]
    simp [Except.map, FieldValue.encoded]
  | fixed32 value =>
    have within : offset + 4 ≤ usizeMax := by
      rcases fits with ⟨number, other⟩ | fits
      · cases other
      · simpa [FieldValue.encoded] using fits
    show (readArray 4 payload offset).map _ = _
    rw [readArray_append value split within]
    simp [Except.map, FieldValue.encoded]
  | bytes value =>
    have within : offset + ((encodeVarint (UInt64.ofNat value.length)).length + value.length) ≤ usizeMax := by
      rcases fits with ⟨number, other⟩ | fits
      · cases other
      · simpa [FieldValue.encoded] using fits
    have length : (UInt64.ofNat value.length).toNat = value.length := by
      rw [UInt64.toNat_ofNat', Nat.mod_eq_of_lt]
      unfold usizeMax at within
      omega
    rw [FieldValue.encoded, List.append_assoc] at split
    have rest' : payload.drop (offset + (encodeVarint (UInt64.ofNat value.length)).length) = value ++ rest := by
      rw [← List.drop_drop, split, List.drop_left]
    have inside : offset + (encodeVarint (UInt64.ofNat value.length)).length + value.length ≤
        payload.length := by
      have whole := congrArg List.length split
      simp only [List.length_drop, List.length_append] at whole
      have some := List.length_pos_of_ne_nil (spelling_encode value.length).ne_nil
      rw [encodeVarint_eq, length] at whole ⊢
      omega
    show (readBytes payload offset).map _ = _
    rw [readBytes, decodeVarint_encodeVarint split, except_ok_bind, length]
    simp only
    rw [if_neg (by omega), if_neg (by omega), rest', List.take_left]
    simp [Except.map, FieldValue.encoded, Nat.add_assoc]

theorem parseField_encoded {payload rest : List UInt8} {offset : Nat} {field : Field}
    (numbered : field.number ≠ 0) (split : payload.drop offset = field.encoded ++ rest)
    (within : field.Within offset) :
    parseField payload offset = .ok (field, offset + field.encoded.length) := by
  have small := field.value.wireType_lt
  have below := field.number.toNat_lt
  have positive : field.number.toNat ≠ 0 := fun zero =>
    numbered (UInt32.toNat_inj.mp (by rw [zero]; rfl))
  rw [Field.encoded, List.append_assoc] at split
  have rest' : payload.drop (offset +
      (encodeVarint ((field.number.toUInt64 <<< 3) ||| field.value.wireType)).length) =
        field.value.encoded ++ rest := by
    rw [← List.drop_drop, split, List.drop_left]
  rw [parseField, decodeVarint_encodeVarint split, except_ok_bind, head_toNat]
  simp only
  have number : (8 * field.number.toNat + field.value.wireType.toNat) >>> 3 = field.number.toNat := by
    rw [shift_head]
    omega
  have kind : (8 * field.number.toNat + field.value.wireType.toNat) &&& 7 = field.value.wireType.toNat := by
    rw [mask_head]
    omega
  rw [number, kind, if_neg (by omega), if_neg positive, readValue_encoded field.value rest' ?_]
  · simp only [except_ok_bind, Field.encoded, List.length_append, Nat.add_assoc]
    rw [UInt32.ofNat_toNat]
  · obtain ⟨number, value⟩ := field
    cases value with
    | varint number => exact .inl ⟨_, rfl⟩
    | fixed64 _ | bytes _ | fixed32 _ =>
      refine .inr ?_
      have whole : offset + _ ≤ usizeMax := within
      rw [Field.encoded, List.length_append] at whole
      omega

theorem encodeVarint_le {payload : List UInt8} {offset value next : Nat}
    (read : decodeVarint payload offset = .ok (value, next)) :
    value < 2 ^ 64 ∧ offset + (encodeVarint (UInt64.ofNat value)).length ≤ next := by
  obtain ⟨bytes, spelt, -, -, rfl, below⟩ := decodeVarint_iff.mp read
  rw [encodeVarint_eq, UInt64.toNat_ofNat', Nat.mod_eq_of_lt below]
  exact ⟨below, Nat.add_le_add_left spelt.encode_length_le offset⟩

theorem readArray_next {size : Nat} {payload : List UInt8} {offset next : Nat} {value : Vector UInt8 size}
    (read : readArray size payload offset = .ok (value, next)) : next = offset + size ∧ next ≤ usizeMax := by
  rw [readArray] at read
  split at read
  · cases read
  · split at read
    · obtain ⟨-, rfl⟩ := Prod.mk.inj (Except.ok.inj read)
      exact ⟨rfl, by omega⟩
    · cases read

theorem readValue_sound {wireType : Nat} {payload : List UInt8} {offset next : Nat} {value : FieldValue}
    (read : readValue wireType payload offset = .ok (value, next)) :
    value.wireType.toNat = wireType ∧ offset + value.encoded.length ≤ next ∧
      ((∃ number, value = .varint number) ∨ next ≤ usizeMax) := by
  unfold readValue at read
  split at read
  · obtain ⟨⟨number, _⟩, inner, equal⟩ := except_map_eq_ok read
    obtain ⟨rfl, rfl⟩ := Prod.mk.inj equal
    exact ⟨rfl, (encodeVarint_le inner).2, .inl ⟨_, rfl⟩⟩
  · obtain ⟨⟨_, _⟩, inner, equal⟩ := except_map_eq_ok read
    obtain ⟨rfl, rfl⟩ := Prod.mk.inj equal
    obtain ⟨reached, fits⟩ := readArray_next inner
    exact ⟨rfl, by simp [FieldValue.encoded, reached], .inr fits⟩
  · obtain ⟨⟨bytes, last⟩, inner, equal⟩ := except_map_eq_ok read
    obtain ⟨rfl, rfl⟩ := Prod.mk.inj equal
    obtain ⟨⟨length, between⟩, first, inner⟩ := except_bind_eq_ok.mp inner
    have written := encodeVarint_le first
    simp only at inner
    split at inner
    · cases inner
    · split at inner
      · cases inner
      · obtain ⟨rfl, rfl⟩ := Prod.mk.inj (Except.ok.inj inner)
        have taken : ((payload.drop between).take length).length = length := by
          rw [List.length_take, List.length_drop]
          omega
        refine ⟨rfl, ?_, .inr (by omega)⟩
        rw [FieldValue.encoded, taken, List.length_append, taken]
        omega
  · obtain ⟨⟨_, _⟩, inner, equal⟩ := except_map_eq_ok read
    obtain ⟨rfl, rfl⟩ := Prod.mk.inj equal
    obtain ⟨reached, fits⟩ := readArray_next inner
    exact ⟨rfl, by simp [FieldValue.encoded, reached], .inr fits⟩
  · cases read

theorem parseField_sound {payload : List UInt8} {offset next : Nat} {field : Field}
    (read : parseField payload offset = .ok (field, next)) :
    field.number ≠ 0 ∧ offset + field.encoded.length ≤ next ∧
      ((∃ number, field.value = .varint number) ∨ next ≤ usizeMax) := by
  obtain ⟨⟨head, between⟩, first, read⟩ := except_bind_eq_ok.mp read
  obtain ⟨below, written⟩ := encodeVarint_le first
  simp only at read
  split at read
  · cases read
  · rename_i narrow
    split at read
    · cases read
    · rename_i positive
      obtain ⟨⟨value, last⟩, inner, read⟩ := except_bind_eq_ok.mp read
      obtain ⟨rfl, rfl⟩ := Prod.mk.inj (Except.ok.inj read)
      obtain ⟨kind, more, fits⟩ := readValue_sound inner
      have number : (UInt32.ofNat (head >>> 3)).toNat = head >>> 3 := by
        rw [UInt32.toNat_ofNat', Nat.mod_eq_of_lt (by omega)]
      refine ⟨fun zero => positive (number.symm.trans (congrArg UInt32.toNat zero)), ?_, fits⟩
      · have same : (UInt32.ofNat (head >>> 3)).toUInt64 <<< 3 ||| value.wireType = UInt64.ofNat head := by
          rw [← UInt64.toNat_inj, head_toNat ⟨UInt32.ofNat (head >>> 3), value⟩, UInt64.toNat_ofNat',
            Nat.mod_eq_of_lt below]
          simp only [number, kind]
          rw [shift_head, mask_head]
          omega
        simp only [Field.encoded, same, List.length_append]
        omega

/-! ### Lists of fields -/

/-- Fields that stand one after another, each up to a place that fits a `usize`. -/
def FitsAt : Nat → List Field → Prop
  | _, [] => True
  | offset, field :: fields => field.Within offset ∧ FitsAt (offset + field.encoded.length) fields

/-- The bytes of a list of fields. -/
def encodedAll (fields : List Field) : List UInt8 := fields.flatMap Field.encoded

theorem serializeFields_eq {fields : List Field} (numbered : ∀ field ∈ fields, field.number ≠ 0) :
    serializeFields fields = .ok (encodedAll fields) := by
  induction fields with
  | nil => rfl
  | cons field fields ih =>
    rw [serializeFields, if_neg (numbered field List.mem_cons_self),
      ih fun other member => numbered other (List.mem_cons_of_mem _ member)]
    rfl

theorem fitsAt_of_le {offset : Nat} {fields : List Field}
    (fits : offset + (encodedAll fields).length ≤ usizeMax) : FitsAt offset fields := by
  induction fields generalizing offset with
  | nil => trivial
  | cons field fields ih =>
    rw [encodedAll, List.flatMap_cons, List.length_append] at fits
    refine ⟨?_, ih (by rw [encodedAll]; omega)⟩
    unfold Field.Within
    split
    · trivial
    · omega

theorem Field.encoded_ne_nil (field : Field) : field.encoded ≠ [] := by
  rw [Field.encoded, encodeVarint_eq]
  exact fun nil => (spelling_encode _).ne_nil (List.append_eq_nil_iff.mp nil).1

theorem parseFrom_end {payload : List UInt8} {offset : Nat} (outside : ¬ offset < payload.length) :
    parseFrom payload offset = .ok [] := by
  rw [parseFrom, if_neg outside]

theorem parseFrom_error {payload : List UInt8} {offset : Nat} {error : Error}
    (inside : offset < payload.length) (failed : parseField payload offset = .error error) :
    parseFrom payload offset = .error error := by
  rw [parseFrom, if_pos inside]
  split
  · rename_i other same
    rw [failed] at same
    exact congrArg _ (Except.error.inj same).symm
  · rename_i other
    rw [failed] at other
    cases other

theorem parseFrom_more {payload : List UInt8} {offset next : Nat} {field : Field}
    (inside : offset < payload.length) (read : parseField payload offset = .ok (field, next)) :
    parseFrom payload offset = (parseFrom payload next).map (field :: ·) := by
  rw [parseFrom, if_pos inside]
  split
  · rename_i other
    rw [read] at other
    cases other
  · rename_i same
    rw [read] at same
    obtain ⟨rfl, rfl⟩ := Prod.mk.inj (Except.ok.inj same)
    rfl

theorem parseFrom_encoded {payload : List UInt8} {offset : Nat} {fields : List Field}
    (numbered : ∀ field ∈ fields, field.number ≠ 0) (split : payload.drop offset = encodedAll fields)
    (fits : FitsAt offset fields) : parseFrom payload offset = .ok fields := by
  induction fields generalizing offset with
  | nil =>
    have short := List.drop_eq_nil_iff.mp split
    exact parseFrom_end (by omega)
  | cons field fields ih =>
    rw [encodedAll, List.flatMap_cons] at split
    have inside : offset < payload.length := by
      have some := List.length_pos_of_ne_nil field.encoded_ne_nil
      have whole := congrArg List.length split
      rw [List.length_drop, List.length_append] at whole
      omega
    have parsed := parseField_encoded (numbered field List.mem_cons_self) split fits.1
    have rest := @ih (offset + field.encoded.length)
      (fun other member => numbered other (List.mem_cons_of_mem _ member))
      (by rw [← List.drop_drop, split, List.drop_left]; rfl) fits.2
    rw [parseFrom_more inside parsed, rest]
    rfl

/-- Fields that were parsed have numbers, are written in no more bytes, and fit wherever they come no later. -/
theorem parseFrom_sound {payload : List UInt8} {offset : Nat} {fields : List Field}
    (parsed : parseFrom payload offset = .ok fields) :
    (∀ field ∈ fields, field.number ≠ 0) ∧ (encodedAll fields).length ≤ payload.length - offset ∧
      ∀ earlier ≤ offset, FitsAt earlier fields := by
  induction offset using parseFrom.induct payload generalizing fields with
  | case1 offset inside error failed =>
    rw [parseFrom_error inside failed] at parsed
    cases parsed
  | case2 offset inside field next read ih =>
    rw [parseFrom_more inside read] at parsed
    obtain ⟨rest, tail, rfl⟩ := except_map_eq_ok parsed
    obtain ⟨numbered, short, fits⟩ := ih tail
    obtain ⟨number, written, within⟩ := parseField_sound read
    have reached := parseField_progress read
    refine ⟨?_, ?_, fun earlier before => ⟨?_, fits _ (by omega)⟩⟩
    · intro other member
      rcases List.mem_cons.mp member with rfl | member
      · exact number
      · exact numbered other member
    · rw [encodedAll] at short ⊢
      rw [List.flatMap_cons, List.length_append]
      omega
    · unfold Field.Within
      split
      · trivial
      · rename_i other
        rcases within with ⟨number, same⟩ | within
        · exact absurd same (other number)
        · omega
  | case3 offset outside =>
    rw [parseFrom_end outside] at parsed
    obtain rfl := Except.ok.inj parsed
    exact ⟨fun _ member => absurd member List.not_mem_nil, Nat.zero_le _, fun _ _ => trivial⟩

/-- **What is serialized is parsed as it was.** -/
theorem parse_serialize {fields : List Field} (numbered : ∀ field ∈ fields, field.number ≠ 0) :
    ∃ bytes, serializeFields fields = .ok bytes ∧
      (bytes.length ≤ maxBodySize → parseFields bytes = .ok fields) := by
  refine ⟨_, serializeFields_eq numbered, fun small => parseFrom_encoded numbered rfl (fitsAt_of_le ?_)⟩
  have below : maxBodySize ≤ usizeMax := by decide
  omega

/-- **What is parsed is serialized in no more bytes**, and parsed again. -/
theorem reserialize_le {payload : List UInt8} {fields : List Field} (parsed : parseFields payload = .ok fields) :
    ∃ bytes, serializeFields fields = .ok bytes ∧ parseFields bytes = .ok fields ∧
      bytes.length ≤ payload.length := by
  obtain ⟨numbered, short, fits⟩ := parseFrom_sound parsed
  exact ⟨_, serializeFields_eq numbered, parseFrom_encoded numbered rfl (fits 0 (Nat.le_refl 0)), by omega⟩

/-! ### Envelopes -/

/-- What is assumed of gzip: it writes every payload, and what it has written is read, up to as many bytes as
are asked for. -/
def Gzip.Inverse (gzip : Gzip) : Prop :=
  ∀ payload, ∃ written, gzip.write payload = .ok written ∧
    ∀ most, gzip.read most written = .ok (payload.take most)

theorem fromBeBytes_toBeBytes {value : Nat} (small : value < 2 ^ 32) : fromBeBytes (toBeBytes value) = value := by
  simp only [toBeBytes, fromBeBytes, List.foldl_cons, List.foldl_nil, UInt8.toNat_ofNat']
  omega

theorem declaredFlags_framed {flags : UInt8} {payload body : List UInt8}
    (written : framed flags payload = .ok body) :
    declaredFlags body = some flags ∧ body.drop 5 = payload ∧ body.length = payload.length + 5 := by
  rw [framed] at written
  split at written
  · cases written
  · rename_i small
    obtain rfl := Except.ok.inj written
    refine ⟨?_, rfl, ?_⟩
    · rw [declaredFlags, if_pos]
      · rfl
      · refine ⟨by simp [toBeBytes], ?_⟩
        show fromBeBytes (toBeBytes payload.length) = _
        rw [fromBeBytes_toBeBytes (by omega)]
        simp [toBeBytes]
    · simp [toBeBytes]

/-- **A frame is unwrapped**, whatever the encoding of the message is said to be. -/
theorem unwrap_frame {gzip : Gzip} (inverse : gzip.Inverse) {payload body : List UInt8} {compress : Bool}
    (written : frame gzip payload compress = .ok body) (small : body.length ≤ maxBodySize + 5)
    (encoding : Option String) :
    unwrapRequest gzip body none encoding = .ok ⟨payload, true⟩ := by
  rw [frame] at written
  split at written
  · cases written
  · rename_i fits
    have raw : encodingHasGzip none = false := by decide +kernel
    rw [unwrapRequest, if_neg (by omega), raw]
    simp only [Bool.false_eq_true, if_false, except_ok_bind]
    rw [unwrapBuffer, if_neg (by omega)]
    cases compress with
    | false =>
      simp only [Bool.false_eq_true, if_false, except_ok_bind] at written
      obtain ⟨flags, inside, -⟩ := declaredFlags_framed written
      rw [flags]
      simp only [inside]
      rw [if_pos (by decide), if_neg (by decide), except_ok_bind, if_neg fits]
    | true =>
      simp only [if_true] at written
      obtain ⟨packed, zipped, written⟩ := except_bind_eq_ok.mp written
      obtain ⟨flags, inside, -⟩ := declaredFlags_framed written
      obtain ⟨written', zipped', reads⟩ := inverse payload
      obtain rfl := Except.ok.inj (zipped.symm.trans zipped')
      have unzipped : gzip.gunzip packed = .ok payload := by
        rw [Gzip.gunzip, reads]
        simp only
        rw [List.take_of_length_le (by omega), if_neg fits]
      rw [flags]
      simp only [inside]
      rw [if_pos (by decide), if_pos trivial, unzipped, except_ok_bind, if_neg fits]

theorem framed_small (flags : UInt8) {inner : List UInt8} (small : inner.length ≤ maxBodySize) :
    ∃ body, framed flags inner = .ok body ∧ body.length ≤ maxBodySize + 5 := by
  have short : ¬ 2 ^ 32 ≤ inner.length := by
    unfold maxBodySize at small
    omega
  refine ⟨_, by rw [framed, if_neg short], ?_⟩
  rw [List.length_cons, List.length_append, show (toBeBytes inner.length).length = 4 from rfl]
  omega

/-- **Every payload is framed and unwrapped**, when it and what gzip makes of it are within the limit. -/
theorem frame_unwraps {gzip : Gzip} (inverse : gzip.Inverse) {payload : List UInt8} {compress : Bool}
    (fits : payload.length ≤ maxBodySize)
    (packed : compress = true → ∀ written, gzip.write payload = .ok written → written.length ≤ maxBodySize)
    (encoding : Option String) :
    ∃ body, frame gzip payload compress = .ok body ∧
      unwrapRequest gzip body none encoding = .ok ⟨payload, true⟩ := by
  have allowed : ¬ maxBodySize < payload.length := by omega
  have framed : ∃ body, frame gzip payload compress = .ok body ∧ body.length ≤ maxBodySize + 5 := by
    cases compress with
    | false =>
      obtain ⟨body, made, small⟩ := framed_small 0 fits
      refine ⟨body, ?_, small⟩
      rw [frame, if_neg allowed]
      exact made
    | true =>
      obtain ⟨written, zipped, -⟩ := inverse payload
      obtain ⟨body, made, small⟩ := framed_small 1 (packed rfl written zipped)
      refine ⟨body, ?_, small⟩
      rw [frame, if_neg allowed]
      exact except_bind_eq_ok.mpr ⟨written, zipped, made⟩
  obtain ⟨body, written, small⟩ := framed
  exact ⟨body, written, unwrap_frame inverse written small encoding⟩

theorem head_field (field : Field) (numbered : field.number ≠ 0) :
    ∃ byte rest, field.encoded = byte :: rest ∧ 2 < byte.toNat := by
  have positive : field.number.toNat ≠ 0 := fun zero =>
    numbered (UInt32.toNat_inj.mp (by rw [zero]; rfl))
  rw [Field.encoded, encodeVarint_eq, head_toNat]
  by_cases small : 8 * field.number.toNat + field.value.wireType.toNat < 128
  · rw [encode_small small]
    refine ⟨_, _, rfl, ?_⟩
    rw [toNat_ofNat (by omega)]
    omega
  · rw [encode_large (by omega)]
    refine ⟨_, _, rfl, ?_⟩
    rw [toNat_ofNat (by omega)]
    omega

/-- **Fields are never taken for a frame.** -/
theorem declaredFlags_fields {fields : List Field} {bytes : List UInt8} (some : fields ≠ [])
    (written : serializeFields fields = .ok bytes) :
    ∀ flags, declaredFlags bytes = .some flags → ¬ flags ≤ 2 := by
  cases fields with
  | nil => exact absurd rfl some
  | cons field fields =>
    rw [serializeFields] at written
    split at written
    · cases written
    · rename_i numbered
      obtain ⟨rest, -, rfl⟩ := except_map_eq_ok written
      obtain ⟨byte, more, split, large⟩ := head_field field numbered
      intro flags declared
      rw [declaredFlags] at declared
      split at declared
      · rw [split] at declared
        obtain rfl := Option.some.inj declared
        exact fun small => absurd (UInt8.le_iff_toNat_le.mp small) (by simpa using large)
      · cases declared

theorem gunzip_ne (gzip : Gzip) (payload : List UInt8) : gzip.gunzip payload ≠ .error endFrameRequest := by
  rw [Gzip.gunzip]
  split
  · rename_i error _
    intro same
    have texts := congrArg (fun text : String => text.toList.head?) (Error.protocol.inj (Except.error.inj same))
    rw [String.toList_append] at texts
    exact absurd (Option.some.inj texts) (by decide)
  · split
    · exact fun same => absurd (Error.protocol.inj (Except.error.inj same)) (by decide)
    · intro same
      cases same

section Unwrap

variable {gzip : Gzip} {body : List UInt8} {http encoding : Option String}

theorem unwrapRaw_cases :
    unwrapBuffer.unwrapRaw gzip body encoding ≠ .error endFrameRequest ∧
      ∀ result, unwrapBuffer.unwrapRaw gzip body encoding = .ok result → result.enveloped = false := by
  have last : ∀ payload : List UInt8,
      (if maxBodySize < payload.length then Except.error tooLarge else .ok (⟨payload, false⟩ : UnwrappedRequest)) ≠
        .error endFrameRequest ∧
      ∀ result, (if maxBodySize < payload.length then Except.error tooLarge
        else .ok (⟨payload, false⟩ : UnwrappedRequest)) = .ok result → result.enveloped = false := by
    intro payload
    split
    · refine ⟨fun same => absurd (Error.protocol.inj (Except.error.inj same)) (by decide), ?_⟩
      rintro _ ⟨⟩
    · refine ⟨?_, fun result same => ?_⟩
      · rintro ⟨⟩
      · rw [← Except.ok.inj same]
  rw [unwrapBuffer.unwrapRaw]
  by_cases packed : encodingHasGzip encoding = true
  · rw [if_pos packed]
    cases unzipped : gzip.gunzip body with
    | error error =>
      rw [except_error_bind]
      refine ⟨fun same => gunzip_ne gzip body (unzipped.trans (congrArg _ (Except.error.inj same))), ?_⟩
      rintro _ ⟨⟩
    | ok payload => exact last payload
  · rw [if_neg packed]
    exact last body

theorem unwrap_undeclared (plain : ∀ flags, declaredFlags body = some flags → ¬ flags ≤ 2) :
    unwrapRequest gzip body none encoding ≠ .error endFrameRequest ∧
      ∀ result, unwrapRequest gzip body none encoding = .ok result → result.enveloped = false := by
  have raw : encodingHasGzip none = false := by decide +kernel
  have large : (Except.error tooLarge : Except Error UnwrappedRequest) ≠ .error endFrameRequest ∧
      ∀ result, (Except.error tooLarge : Except Error UnwrappedRequest) = .ok result →
        result.enveloped = false := by
    refine ⟨fun same => absurd (Error.protocol.inj (Except.error.inj same)) (by decide), ?_⟩
    rintro _ ⟨⟩
  rw [unwrapRequest, raw]
  split
  · exact large
  · simp only [Bool.false_eq_true, if_false, except_ok_bind]
    rw [unwrapBuffer]
    split
    · exact large
    · split
      · rename_i flags declared
        have other := plain flags declared
        have one : ¬ flags ≤ 1 := fun small => other (UInt8.le_trans small (by decide))
        have two : flags ≠ 2 := fun same => other (by rw [same]; exact UInt8.le_refl _)
        rw [if_neg one, if_neg two]
        exact unwrapRaw_cases
      · exact unwrapRaw_cases

theorem unwrapped_enveloped {payload : List UInt8} {result : UnwrappedRequest}
    (unwrapped : (if maxBodySize < payload.length then Except.error tooLarge else .ok ⟨payload, true⟩) =
      .ok result) : result.enveloped = true := by
  split at unwrapped
  · cases unwrapped
  · rw [← Except.ok.inj unwrapped]

/-- **The envelope is recognized where it is unwrapped.** -/
theorem isConnectEnvelope_eq (unpacked : encodingHasGzip http = false) {result : UnwrappedRequest}
    (unwrapped : unwrapRequest gzip body http encoding = .ok result) :
    isConnectEnvelope body = result.enveloped := by
  rw [unwrapRequest, unpacked] at unwrapped
  split at unwrapped
  · cases unwrapped
  · simp only [Bool.false_eq_true, if_false, except_ok_bind] at unwrapped
    rw [unwrapBuffer] at unwrapped
    rw [isConnectEnvelope]
    split at unwrapped
    · cases unwrapped
    · cases declared : declaredFlags body with
      | none =>
        rw [declared] at unwrapped
        exact (unwrapRaw_cases.2 result unwrapped).symm
      | some flags =>
        rw [declared] at unwrapped
        simp only at unwrapped ⊢
        by_cases one : flags ≤ 1
        · rw [if_pos one] at unwrapped
          have enveloped : result.enveloped = true := by
            split at unwrapped
            · obtain ⟨payload, -, unwrapped⟩ := except_bind_eq_ok.mp unwrapped
              exact unwrapped_enveloped unwrapped
            · exact unwrapped_enveloped unwrapped
          rw [enveloped, decide_eq_true one]
        · rw [if_neg one] at unwrapped
          rw [decide_eq_false one]
          split at unwrapped
          · cases unwrapped
          · exact (unwrapRaw_cases.2 result unwrapped).symm

end Unwrap

/-- **The wire codec.** Fields come back from their bytes; parsing never reads behind the end of a payload,
and what it gives is written in no more bytes and parsed again; frames are unwrapped, fields are never taken
for a frame, and an envelope is recognized exactly where it is unwrapped. -/
theorem wire_laws (gzip : Gzip) (inverse : gzip.Inverse) :
    (∀ fields : List Field, (∀ field ∈ fields, field.number ≠ 0) →
      ∃ bytes, serializeFields fields = .ok bytes ∧
        (bytes.length ≤ maxBodySize → parseFields bytes = .ok fields)) ∧
    (∀ payload offset field next, parseField payload offset = .ok (field, next) →
      offset < next ∧ next ≤ payload.length) ∧
    (∀ payload fields, parseFields payload = .ok fields →
      ∃ bytes, serializeFields fields = .ok bytes ∧ parseFields bytes = .ok fields ∧
        bytes.length ≤ payload.length) ∧
    (∀ payload compress encoding, payload.length ≤ maxBodySize →
      (compress = true → ∀ written, gzip.write payload = .ok written → written.length ≤ maxBodySize) →
      ∃ body, frame gzip payload compress = .ok body ∧
        unwrapRequest gzip body none encoding = .ok ⟨payload, true⟩) ∧
    (∀ fields bytes, fields ≠ [] → serializeFields fields = .ok bytes →
      isConnectEnvelope bytes = false ∧
        ∀ encoding, unwrapRequest gzip bytes none encoding ≠ .error endFrameRequest ∧
          ∀ result, unwrapRequest gzip bytes none encoding = .ok result → result.enveloped = false) ∧
    (∀ body http encoding result, encodingHasGzip http = false →
      unwrapRequest gzip body http encoding = .ok result → isConnectEnvelope body = result.enveloped) := by
  refine ⟨fun _ numbered => parse_serialize numbered, fun _ _ _ _ => parseField_progress,
    fun _ _ => reserialize_le, fun _ _ encoding fits packed => frame_unwraps inverse fits packed encoding,
    fun fields bytes some written => ?_, fun _ _ _ _ unpacked => isConnectEnvelope_eq unpacked⟩
  have plain := declaredFlags_fields some written
  refine ⟨?_, fun encoding => unwrap_undeclared plain⟩
  rw [isConnectEnvelope]
  split
  · rename_i flags declared
    exact decide_eq_false fun small => plain flags declared (UInt8.le_trans small (by decide))
  · rfl

/-- What gzip makes of the byte 97. -/
def letterGzip : List UInt8 :=
  [0x1f, 0x8b, 0x08, 0, 0, 0, 0, 0, 0, 0xff, 0x4b, 0x04, 0, 0x43, 0xbe, 0xb7, 0xe8, 1, 0, 0, 0]

/-- A gzip for this byte; it marks other payloads. -/
def sampleGzip : Gzip where
  write payload := .ok (if payload = [97] then letterGzip else 0 :: payload)
  read most written :=
    match written with
    | 0 :: payload => .ok (payload.take most)
    | written => if written = letterGzip then .ok ([97].take most) else .error "invalid gzip header"

theorem wire_laws_sample :
    sampleGzip.Inverse ∧ ∃ body, frame sampleGzip [97] true = .ok body ∧
      unwrapRequest sampleGzip body none (some "gzip") = .ok ⟨[97], true⟩ := by
  have inverse : sampleGzip.Inverse := by
    intro payload
    refine ⟨_, rfl, fun most => ?_⟩
    by_cases letter : payload = [97]
    · rw [letter]
      rfl
    · rw [if_neg letter]
      rfl
  refine ⟨inverse, (wire_laws sampleGzip inverse).2.2.2.1 [97] true (some "gzip") (by decide) ?_⟩
  intro _ written zipped
  rw [← Except.ok.inj zipped]
  decide

end Byok.Devin
