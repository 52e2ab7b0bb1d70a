import Moqt.Wire.Varint

/-! The two other field formats of control messages: key-value pairs, whose types are coded as
deltas, and reason phrases. -/

namespace Moqt.Wire

open Library

/-! ### Key-value pairs -/

def MAX_VALUE_LENGTH : UInt64 := 65535

inductive KvValue where
  | varint (value : UInt64)
  | bytes (value : Bytes)
deriving DecidableEq, Repr

structure KeyValuePair where
  typeId : UInt64
  value : KvValue
deriving DecidableEq, Repr

def encodeKvValue (typeId : UInt64) : KvValue → Outcome Bytes
  | .varint value =>
    if typeId % 2 == 1 then .err s!"type_id {typeId} is odd but got Varint, expected Bytes"
    else return encodeVarint value
  | .bytes value =>
    if typeId % 2 == 0 then .err s!"type_id {typeId} is even but got Bytes, expected Varint"
    else return encodeVarint value.length.toUInt64 ++ value

/-- The loop of `encode_key_value_pairs`. -/
def encodeKeyValuePairsFrom : (prevType : UInt64) → List KeyValuePair → Outcome Bytes
  | _, [] => return []
  | prevType, pair :: pairs => do
    Outcome.ensure (prevType ≤ pair.typeId || prevType == 0)
      s!"type_id {pair.typeId} is not in ascending order (prev: {prevType})"
    let value ← encodeKvValue pair.typeId pair.value
    let delta := pair.typeId - prevType
    let rest ← encodeKeyValuePairsFrom pair.typeId pairs
    return encodeVarint delta ++ value ++ rest

def encodeKeyValuePairs (pairs : List KeyValuePair) : Outcome Bytes :=
  encodeKeyValuePairsFrom 0 pairs

/-- `u64::checked_add` -/
def checkedAdd (a b : UInt64) (overflow : String) : Decoder UInt64 :=
  if a.toNat + b.toNat < 2 ^ 64 then pure (a + b) else Decoder.bail overflow

def decodeKvBytes : Decoder Bytes := do
  let len ← decodeVarint
  Decoder.ensure (len ≤ MAX_VALUE_LENGTH) s!"value too long: {len} bytes (max {MAX_VALUE_LENGTH})"
  let len := len.toNat
  Decoder.ensureLen len fun have_ => s!"need {len} bytes for value, have {have_}"
  let bytes ← Decoder.slice len
  Decoder.advance len
  return bytes

def decodeKvValue (typeId : UInt64) : Decoder KvValue := do
  if typeId % 2 == 0 then
    return .varint (← decodeVarint)
  else
    return .bytes (← decodeKvBytes)

/-- One iteration of the loop of `decode_key_value_pairs`: the pairs so far and the last type. -/
def decodeKeyValuePair (s : List KeyValuePair × UInt64) :
    Decoder (List KeyValuePair × UInt64) := do
  let delta ← decodeVarint
  let typeId ← checkedAdd s.2 delta "type overflow"
  let value ← decodeKvValue typeId
  return (s.1 ++ [⟨typeId, value⟩], typeId)

def decodeKeyValuePairs : Decoder (List KeyValuePair) := do
  let s ← Decoder.whileNonEmpty ([], 0) decodeKeyValuePair
  return s.1

/-! ### Reason phrases -/

def MAX_LENGTH : UInt64 := 1024

structure ReasonPhrase where
  value : Bytes
deriving DecidableEq, Repr

/-- `ReasonPhrase::from(&str)` -/
def ReasonPhrase.ofString (s : String) : ReasonPhrase := { value := s.toUTF8.data.toList }

def encodeReasonPhrase (rp : ReasonPhrase) : Bytes :=
  encodeVarint rp.value.length.toUInt64 ++ rp.value

def decodeReasonPhrase : Decoder ReasonPhrase := do
  let len ← decodeVarint
  Decoder.ensure (len ≤ MAX_LENGTH) s!"reason phrase too long: {len} bytes (max {MAX_LENGTH})"
  let len := len.toNat
  Decoder.ensureLen len fun have_ => s!"need {len} bytes for reason phrase, have {have_}"
  let value ← Decoder.slice len
  Decoder.advance len
  return ⟨value⟩

/-! ### What the decoders do with the bytes -/

theorem checkedAdd_within {room count : Nat} (a b : UInt64) (m : String) (c : Bytes) :
    (checkedAdd a b m).Within room count c := by
  unfold checkedAdd
  exact Decoder.Within.ite (fun _ => Decoder.Within.pure _) fun _ => Decoder.Within.bail _

@[simp] theorem returns_checkedAdd {a b sum : UInt64} {m : String} {c r : Bytes} :
    (checkedAdd a b m).Returns c sum r ↔
      a.toNat + b.toNat < 2 ^ 64 ∧ a + b = sum ∧ c = r := by
  unfold checkedAdd
  simp

theorem decodeKvBytes_within {room count : Nat} {b : Bytes} (hb : b.length ≤ count) :
    decodeKvBytes.Within room count b := by
  refine (decodeVarint_within hb).bind fun len r _ _ => ?_
  refine (Decoder.Within.ensure _ _).bind fun _ _ _ _ => ?_
  refine (Decoder.Within.ensureLen _ _).bind fun _ r hr _ => ?_
  obtain ⟨hlen, rfl⟩ := Decoder.returns_ensureLen.mp hr
  refine (Decoder.Within.slice hlen).bind fun bytes r hr _ => ?_
  obtain ⟨-, -, rfl⟩ := Decoder.returns_slice.mp hr
  exact (Decoder.Within.advance hlen).bind fun _ _ _ _ => Decoder.Within.pure _

theorem decodeKvValue_within {room count : Nat} (typeId : UInt64) {b : Bytes}
    (hb : b.length ≤ count) : (decodeKvValue typeId).Within room count b := by
  unfold decodeKvValue
  refine Decoder.Within.ite (fun _ => ?_) fun _ => ?_
  · exact (decodeVarint_within hb).bind fun _ _ _ _ => Decoder.Within.pure _
  · exact (decodeKvBytes_within hb).bind fun _ _ _ _ => Decoder.Within.pure _

theorem decodeKeyValuePair_within {room count : Nat} (s : List KeyValuePair × UInt64) {b : Bytes}
    (hb : b.length ≤ count) : (decodeKeyValuePair s).Within room count b := by
  refine (decodeVarint_within hb).bind fun delta r _ hr => ?_
  refine (checkedAdd_within _ _ _ _).bind fun typeId r' _ hr' => ?_
  exact (decodeKvValue_within typeId (by omega)).bind fun _ _ _ _ => Decoder.Within.pure _

theorem decodeKeyValuePair_takes {s s' : List KeyValuePair × UInt64} {b r : Bytes}
    (h : (decodeKeyValuePair s).Returns b s' r) : r.length < b.length := by
  simp only [decodeKeyValuePair, Decoder.returns_bind, returns_checkedAdd,
    Decoder.returns_pure] at h
  obtain ⟨delta, mid, hdelta, typeId, _, ⟨-, -, rfl⟩, value, last, hvalue, -, rfl⟩ := h
  have h1 := decodeVarint_takes hdelta
  have hwithin : (decodeKvValue typeId).Within 0 mid.length mid :=
    decodeKvValue_within typeId (Nat.le_refl _)
  have h2 := hwithin.returns_le hvalue
  omega

/-- The loop over the pairs ends, and has no more iterations than there are bytes. -/
theorem decodeKeyValuePairs_within {room count : Nat} {b : Bytes} (hb : b.length ≤ count) :
    decodeKeyValuePairs.Within room count b := by
  refine (Decoder.Within.whileNonEmpty (fun s c hc => ?_)
    (fun _ _ _ _ => decodeKeyValuePair_takes) _ hb).bind fun _ _ _ _ => Decoder.Within.pure _
  exact decodeKeyValuePair_within s (by omega)

theorem decodeReasonPhrase_within {room count : Nat} {b : Bytes} (hb : b.length ≤ count) :
    decodeReasonPhrase.Within room count b := by
  refine (decodeVarint_within hb).bind fun len r _ _ => ?_
  refine (Decoder.Within.ensure _ _).bind fun _ _ _ _ => ?_
  refine (Decoder.Within.ensureLen _ _).bind fun _ r hr _ => ?_
  obtain ⟨hlen, rfl⟩ := Decoder.returns_ensureLen.mp hr
  refine (Decoder.Within.slice hlen).bind fun value r hr _ => ?_
  obtain ⟨-, -, rfl⟩ := Decoder.returns_slice.mp hr
  exact (Decoder.Within.advance hlen).bind fun _ _ _ _ => Decoder.Within.pure _

end Moqt.Wire
