/-
**The Devin wire codec.** `server/src/devin/wire.rs`.

Protobuf fields as a list of numbered values, and the envelope of a Connect request. Compression is a
parameter.

* `parseFields`, `serializeFields` — the codec of fields.
* `unwrapRequest`, `frame` — the envelope.
-/

import Byok.Devin.Varint
import Byok.Library.Fallible

namespace Byok.Devin

open Library Library.Varint

/-! ### Fields -/

inductive FieldValue where
  | varint (value : UInt64)
  | fixed64 (value : Vector UInt8 8)
  | bytes (value : List UInt8)
  | fixed32 (value : Vector UInt8 4)
deriving DecidableEq

structure Field where
  number : UInt32
  value : FieldValue
deriving DecidableEq

/-- The largest `usize`. -/
def usizeMax : Nat := 2 ^ 64 - 1

def readArray (size : Nat) (payload : List UInt8) (offset : Nat) :
    Except Error (Vector UInt8 size × Nat) :=
  if usizeMax < offset + size then .error (.protocol "Devin protobuf offset overflow")
  else if whole : ((payload.drop offset).take size).length = size then
    .ok (⟨((payload.drop offset).take size).toArray, whole⟩, offset + size)
  else .error (.protocol "truncated Devin protobuf fixed field")

/-- The bytes of a field of wire type 2. -/
def readBytes (payload : List UInt8) (offset : Nat) : Except Error (List UInt8 × Nat) := do
  let (length, offset) ← decodeVarint payload offset
  if usizeMax < offset + length then
    .error (.protocol "Devin protobuf length arithmetic overflow")
  else if payload.length < offset + length then
    .error (.protocol "truncated Devin protobuf bytes field")
  else .ok ((payload.drop offset).take length, offset + length)

/-- The value of a field. -/
def readValue (wireType : Nat) (payload : List UInt8) (offset : Nat) : Except Error (FieldValue × Nat) :=
  match wireType with
  | 0 => (decodeVarint payload offset).map fun (value, offset) => (.varint (UInt64.ofNat value), offset)
  | 1 => (readArray 8 payload offset).map fun (value, offset) => (.fixed64 value, offset)
  | 2 => (readBytes payload offset).map fun (value, offset) => (.bytes value, offset)
  | 5 => (readArray 4 payload offset).map fun (value, offset) => (.fixed32 value, offset)
  | other => .error (.protocol ("unsupported Devin protobuf wire type " ++ toString other))

/-- One round of `parse_fields`. -/
def parseField (payload : List UInt8) (offset : Nat) : Except Error (Field × Nat) := do
  let (head, offset) ← decodeVarint payload offset
  if 2 ^ 32 ≤ head >>> 3 then .error (.protocol "Devin protobuf field number overflow")
  else if head >>> 3 = 0 then .error (.protocol "Devin protobuf field number is zero")
  else
    let (value, offset) ← readValue (head &&& 7) payload offset
    .ok ({ number := UInt32.ofNat (head >>> 3), value }, offset)

theorem decodeVarint_progress {payload : List UInt8} {offset value next : Nat}
    (read : decodeVarint payload offset = .ok (value, next)) : offset < next ∧ next ≤ payload.length := by
  obtain ⟨bytes, spelt, split, -, rfl, -⟩ := decodeVarint_iff.mp read
  have some := List.length_pos_of_ne_nil spelt.ne_nil
  have length := congrArg List.length split
  simp only [List.length_drop, List.length_append] at length
  omega

theorem readArray_progress {size : Nat} {payload : List UInt8} {offset next : Nat}
    {value : Vector UInt8 size} (inside : offset ≤ payload.length)
    (read : readArray size payload offset = .ok (value, next)) :
    offset ≤ next ∧ next ≤ payload.length := by
  rw [readArray] at read
  split at read
  · cases read
  · split at read
    · rename_i whole
      obtain ⟨-, rfl⟩ := Prod.mk.inj (Except.ok.inj read)
      rw [List.length_take, List.length_drop] at whole
      omega
    · cases read

theorem readBytes_progress {payload value : List UInt8} {offset next : Nat}
    (read : readBytes payload offset = .ok (value, next)) : offset ≤ next ∧ next ≤ payload.length := by
  obtain ⟨⟨length, between⟩, first, read⟩ := except_bind_eq_ok.mp read
  have := decodeVarint_progress first
  simp only at read
  split at read
  · cases read
  · split at read
    · cases read
    · obtain ⟨-, rfl⟩ := Prod.mk.inj (Except.ok.inj read)
      omega

theorem readValue_progress {wireType : Nat} {payload : List UInt8} {offset next : Nat}
    {value : FieldValue} (inside : offset ≤ payload.length)
    (read : readValue wireType payload offset = .ok (value, next)) :
    offset ≤ next ∧ next ≤ payload.length := by
  unfold readValue at read
  split at read
  · obtain ⟨⟨_, _⟩, inner, equal⟩ := except_map_eq_ok read
    obtain ⟨-, rfl⟩ := Prod.mk.inj equal
    exact ⟨(decodeVarint_progress inner).1.le, (decodeVarint_progress inner).2⟩
  · obtain ⟨⟨_, _⟩, inner, equal⟩ := except_map_eq_ok read
    obtain ⟨-, rfl⟩ := Prod.mk.inj equal
    exact readArray_progress inside inner
  · obtain ⟨⟨_, _⟩, inner, equal⟩ := except_map_eq_ok read
    obtain ⟨-, rfl⟩ := Prod.mk.inj equal
    exact readBytes_progress inner
  · obtain ⟨⟨_, _⟩, inner, equal⟩ := except_map_eq_ok read
    obtain ⟨-, rfl⟩ := Prod.mk.inj equal
    exact readArray_progress inside inner
  · cases read

/-- **A field is at least one byte, and none behind the end.** -/
theorem parseField_progress {payload : List UInt8} {offset next : Nat} {field : Field}
    (read : parseField payload offset = .ok (field, next)) : offset < next ∧ next ≤ payload.length := by
  obtain ⟨⟨head, between⟩, first, read⟩ := except_bind_eq_ok.mp read
  have started := decodeVarint_progress first
  simp only at read
  split at read
  · cases read
  · split at read
    · cases read
    · obtain ⟨⟨value, last⟩, inner, read⟩ := except_bind_eq_ok.mp read
      obtain ⟨-, rfl⟩ := Prod.mk.inj (Except.ok.inj read)
      have := readValue_progress started.2 inner
      omega

/-- The loop of `parse_fields`. -/
def parseFrom (payload : List UInt8) (offset : Nat) : Except Error (List Field) :=
  if offset < payload.length then
    match _parsed : parseField payload offset with
    | .error error => .error error
    | .ok (field, next) => (parseFrom payload next).map (field :: ·)
  else .ok []
termination_by payload.length - offset
decreasing_by
  have := parseField_progress _parsed
  omega

def parseFields (payload : List UInt8) : Except Error (List Field) := parseFrom payload 0

/-- The wire type of a value. -/
def FieldValue.wireType : FieldValue → UInt64
  | .varint _ => 0
  | .fixed64 _ => 1
  | .bytes _ => 2
  | .fixed32 _ => 5

/-- What comes behind the head of a field. -/
def FieldValue.encoded : FieldValue → List UInt8
  | .varint value => encodeVarint value
  | .fixed64 value => value.toList
  | .bytes value => encodeVarint (UInt64.ofNat value.length) ++ value
  | .fixed32 value => value.toList

/-- What `serialize_fields` writes of a field. -/
def Field.encoded (field : Field) : List UInt8 :=
  encodeVarint ((field.number.toUInt64 <<< 3) ||| field.value.wireType) ++ field.value.encoded

def serializeFields : List Field → Except Error (List UInt8)
  | [] => .ok []
  | field :: fields =>
    if field.number = 0 then .error (.protocol "Devin protobuf field number is zero")
    else (serializeFields fields).map (field.encoded ++ ·)

/-! ### Envelopes -/

def maxBodySize : Nat := 24 * 1024 * 1024

/-- What is left open of gzip: writing, and reading of at most so many bytes. -/
structure Gzip where
  write : List UInt8 → Except Error (List UInt8)
  read : Nat → List UInt8 → Except String (List UInt8)

def Gzip.gunzip (gzip : Gzip) (payload : List UInt8) : Except Error (List UInt8) :=
  match gzip.read (maxBodySize + 1) payload with
  | .error error => .error (.protocol ("invalid Devin gzip payload: " ++ error))
  | .ok output =>
    if maxBodySize < output.length then .error (.protocol "Devin gzip payload exceeds 24 MiB")
    else .ok output

structure UnwrappedRequest where
  payload : List UInt8
  enveloped : Bool
deriving DecidableEq

def encodingHasGzip (value : Option String) : Bool :=
  ((value.getD "").toList.splitOn ',').any fun encoding =>
    (trim (String.ofList encoding)).toList.map Char.toLower == "gzip".toList

def fromBeBytes (bytes : List UInt8) : Nat := bytes.foldl (fun value byte => 256 * value + byte.toNat) 0

/-- The flags of a body that is as long as its head declares. -/
def declaredFlags (body : List UInt8) : Option UInt8 :=
  if 5 ≤ body.length ∧ fromBeBytes ((body.drop 1).take 4) = body.length - 5 then body.head? else none

def tooLarge : Error := .protocol "Devin request body exceeds 24 MiB"

def endFrameRequest : Error := .protocol "Devin end frame is not valid as a request"

/-- The part of `unwrap_request` behind the encoding of the HTTP body. -/
def unwrapBuffer (gzip : Gzip) (buffer : List UInt8) (connectEncoding : Option String) :
    Except Error UnwrappedRequest :=
  if maxBodySize + 5 < buffer.length then .error tooLarge
  else
    match declaredFlags buffer with
    | some flags =>
      if flags ≤ 1 then do
        let payload ← if flags = 1 then gzip.gunzip (buffer.drop 5) else .ok (buffer.drop 5)
        if maxBodySize < payload.length then .error tooLarge else .ok ⟨payload, true⟩
      else if flags = 2 then .error endFrameRequest
      else unwrapRaw
    | none => unwrapRaw
where
  /-- A body without an envelope. -/
  unwrapRaw : Except Error UnwrappedRequest := do
    let payload ← if encodingHasGzip connectEncoding then gzip.gunzip buffer else .ok buffer
    if maxBodySize < payload.length then .error tooLarge else .ok ⟨payload, false⟩

def unwrapRequest (gzip : Gzip) (body : List UInt8) (httpEncoding connectEncoding : Option String) :
    Except Error UnwrappedRequest :=
  if maxBodySize + 5 < body.length then .error tooLarge
  else do
    let buffer ← if encodingHasGzip httpEncoding then gzip.gunzip body else .ok body
    unwrapBuffer gzip buffer connectEncoding

def isConnectEnvelope (body : List UInt8) : Bool :=
  match declaredFlags body with
  | some flags => flags ≤ 1
  | none => false

def toBeBytes (value : Nat) : List UInt8 :=
  [UInt8.ofNat (value / 2 ^ 24), UInt8.ofNat (value / 2 ^ 16), UInt8.ofNat (value / 2 ^ 8), UInt8.ofNat value]

def framed (flags : UInt8) (payload : List UInt8) : Except Error (List UInt8) :=
  if 2 ^ 32 ≤ payload.length then .error (.protocol "Devin frame payload exceeds u32 length")
  else .ok (flags :: (toBeBytes payload.length ++ payload))

def frame (gzip : Gzip) (payload : List UInt8) (compress : Bool) : Except Error (List UInt8) :=
  if maxBodySize < payload.length then .error (.protocol "Devin response body exceeds 24 MiB")
  else do
    let payload ← if compress then gzip.write payload else .ok payload
    framed (if compress then 1 else 0) payload

end Byok.Devin
