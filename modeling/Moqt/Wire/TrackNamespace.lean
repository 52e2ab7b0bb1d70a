import Moqt.Wire.Varint

/-! Track namespaces: 0 to 32 byte-string fields of at least one byte each. -/

namespace Moqt.Wire

open Library

structure TrackNamespace where
  fields : List Bytes
deriving DecidableEq, Repr

def MAX_FIELDS : UInt64 := 32

/-- `size_of::<Vec<u8>>()` on a 64-bit target: a pointer, a length and a capacity. -/
def sizeOfVec : Nat := 24

def encodeNamespaceFields : List Bytes → Outcome Bytes
  | [] => return []
  | field :: fields => do
    Outcome.ensure (!field.isEmpty) "namespace field must not be empty"
    let rest ← encodeNamespaceFields fields
    return encodeVarint field.length.toUInt64 ++ field ++ rest

def encodeTrackNamespace (ns : TrackNamespace) : Outcome Bytes := do
  let len := ns.fields.length.toUInt64
  Outcome.ensure (len ≤ MAX_FIELDS) s!"too many namespace fields: {len} (max {MAX_FIELDS})"
  let fields ← encodeNamespaceFields ns.fields
  return encodeVarint len ++ fields

/-- One iteration of the loop of `decode_track_namespace`. -/
def decodeNamespaceField (fields : List Bytes) : Decoder (List Bytes) := do
  let fieldLen ← decodeVarint
  Decoder.ensure (0 < fieldLen) "namespace field length must be at least 1"
  let fieldLen := fieldLen.toNat
  Decoder.ensureLen fieldLen fun have_ =>
    s!"need {fieldLen} bytes for namespace field, have {have_}"
  let field ← Decoder.slice fieldLen
  Decoder.advance fieldLen
  return fields ++ [field]

def decodeTrackNamespace : Decoder TrackNamespace := do
  let numFields ← decodeVarint
  Decoder.ensure (numFields ≤ MAX_FIELDS)
    s!"too many namespace fields: {numFields} (max {MAX_FIELDS})"
  Decoder.withCapacity numFields.toNat sizeOfVec
  let fields ← Decoder.forCount numFields.toNat [] decodeNamespaceField
  return ⟨fields⟩

theorem decodeNamespaceField_takes {fields fields' : List Bytes} {b r : Bytes}
    (h : (decodeNamespaceField fields).Returns b fields' r) : r.length < b.length := by
  simp only [decodeNamespaceField, Decoder.returns_bind, Decoder.returns_ensure,
    Decoder.returns_ensureLen, Decoder.returns_slice, Decoder.returns_advance,
    Decoder.returns_pure] at h
  obtain ⟨len, mid, hlen, -, _, ⟨-, rfl⟩, -, _, ⟨-, rfl⟩, field, _, ⟨-, -, rfl⟩, -, _,
    ⟨-, rfl⟩, -, rfl⟩ := h
  have := decodeVarint_takes hlen
  simp only [List.length_drop]
  omega

theorem decodeNamespaceField_within {room count : Nat} (fields : List Bytes) {b : Bytes}
    (hb : b.length ≤ count) : (decodeNamespaceField fields).Within room count b := by
  refine (decodeVarint_within hb).bind fun len r _ _ => ?_
  refine (Decoder.Within.ensure _ _).bind fun _ _ _ _ => ?_
  refine (Decoder.Within.ensureLen _ _).bind fun _ r hr _ => ?_
  obtain ⟨hlen, rfl⟩ := Decoder.returns_ensureLen.mp hr
  refine (Decoder.Within.slice hlen).bind fun field r hr _ => ?_
  obtain ⟨-, -, rfl⟩ := Decoder.returns_slice.mp hr
  exact (Decoder.Within.advance hlen).bind fun _ _ _ _ => Decoder.Within.pure _

theorem decodeTrackNamespace_within {room count : Nat} (hroom : MAX_FIELDS.toNat ≤ room) {b : Bytes}
    (hb : b.length ≤ count) : decodeTrackNamespace.Within room count b := by
  refine (decodeVarint_within hb).bind fun numFields r hr _ => ?_
  have htakes := decodeVarint_takes hr
  refine (Decoder.Within.ensure _ _).bind fun _ r hr _ => ?_
  obtain ⟨hmax, rfl⟩ := Decoder.returns_ensure.mp hr
  have hmax : numFields.toNat ≤ 32 := UInt64.le_iff_toNat_le.mp (of_decide_eq_true hmax)
  -- 32 vectors of 24 bytes fit in any allocation
  have hsize : numFields.toNat * sizeOfVec ≤ isizeMax := by
    unfold sizeOfVec isizeMax
    omega
  refine (Decoder.Within.withCapacity (Nat.le_trans hmax hroom) hsize).bind fun _ r hr _ => ?_
  obtain ⟨-, rfl⟩ := Decoder.returns_withCapacity.mp hr
  refine (Decoder.Within.forCount (fun s c hc => ?_) (fun _ _ _ _ => decodeNamespaceField_takes)
    _ _ (by omega)).bind fun _ _ _ _ => Decoder.Within.pure _
  exact decodeNamespaceField_within s (by omega)

end Moqt.Wire
