import Moqt.Wire.Varint

/-! The header of a data stream: the track alias and the group that its objects belong to, and the
fields that the bits of its type say are there. -/

namespace Moqt.Wire

open Library

structure SubgroupHeader where
  trackAlias : UInt64
  groupId : UInt64
  hasProperties : Bool
  endOfGroup : Bool
  subgroupId : Option UInt64
  publisherPriority : Option UInt8
deriving DecidableEq, Repr

namespace SubgroupHeader

def typeByte (header : SubgroupHeader) : UInt64 :=
  let typeByte : UInt64 := 0x10
  let typeByte := if header.hasProperties then typeByte ||| 0x01 else typeByte
  let typeByte := if header.subgroupId.isSome then typeByte ||| 0x04 else typeByte
  let typeByte := if header.endOfGroup then typeByte ||| 0x08 else typeByte
  if header.publisherPriority.isNone then typeByte ||| 0x20 else typeByte

def encode (header : SubgroupHeader) : Bytes :=
  encodeVarint header.typeByte ++ encodeVarint header.trackAlias ++ encodeVarint header.groupId ++
    (match header.subgroupId with
      | some id => encodeVarint id
      | none => []) ++
    header.publisherPriority.toList

def validType (streamType : UInt64) : Bool :=
  (0x10 ≤ streamType && streamType ≤ 0x15) || (0x18 ≤ streamType && streamType ≤ 0x1d) ||
    (0x30 ≤ streamType && streamType ≤ 0x35) || (0x38 ≤ streamType && streamType ≤ 0x3d)

def decodePriority : Decoder UInt8 := do
  Decoder.ensureLen 1 fun _ => "publisher priority truncated"
  let v ← Decoder.first
  Decoder.advance 1
  return v

/-- `SubgroupHeader::decode`.  A type whose subgroup ID is the first object's reads as one without
a subgroup ID. -/
def decode : Decoder SubgroupHeader := do
  let streamType ← decodeVarint
  Decoder.ensure (validType streamType) s!"invalid SUBGROUP_HEADER type 0x{upperHex streamType}"
  let hasProperties := streamType &&& 0x01 != 0
  let subgroupIdMode := (streamType >>> 1) &&& 0x03
  let endOfGroup := streamType &&& 0x08 != 0
  let trackAlias ← decodeVarint
  let groupId ← decodeVarint
  let subgroupId ←
    if subgroupIdMode == 0x02 then some <$> decodeVarint else pure none
  let publisherPriority ←
    if streamType &&& 0x20 == 0 then some <$> decodePriority else pure none
  return { trackAlias, groupId, hasProperties, endOfGroup, subgroupId, publisherPriority }

/-! ### The format -/

def subgroupIdMode (streamType : UInt64) : UInt64 := (streamType >>> 1) &&& 0x03

/-- The bits of the type that the header stands for; the subgroup ID is in the header or not, which
leaves a mode open. -/
structure HasType (header : SubgroupHeader) (streamType : UInt64) : Prop where
  valid : validType streamType = true
  properties : header.hasProperties = (streamType &&& 0x01 != 0)
  endOfGroup : header.endOfGroup = (streamType &&& 0x08 != 0)
  subgroupId : header.subgroupId.isSome = (subgroupIdMode streamType == 0x02)
  priority : header.publisherPriority.isSome = (streamType &&& 0x20 == 0)

/-- The bytes of a field that may be left out. -/
def IsField (enc : UInt64 → Bytes → Prop) : Option UInt64 → Bytes → Prop
  | some v, b => enc v b
  | none, b => b = []

/-- The bytes `c` are the header under the type, field by field, with integers as `enc` says. -/
inductive Format (enc : UInt64 → Bytes → Prop) (streamType : UInt64) (header : SubgroupHeader) :
    Bytes → Prop
  | mk {typeBytes aliasBytes groupBytes idBytes : Bytes} (htype : header.HasType streamType)
      (typeField : enc streamType typeBytes) (aliasField : enc header.trackAlias aliasBytes)
      (groupField : enc header.groupId groupBytes)
      (idField : IsField enc header.subgroupId idBytes) : Format enc streamType header
      (typeBytes ++ aliasBytes ++ groupBytes ++ idBytes ++ header.publisherPriority.toList)

theorem returns_decodePriority {b r : Bytes} {v : UInt8} :
    decodePriority.Returns b v r ↔ b = v :: r := by
  simp only [decodePriority, Decoder.returns_bind, Decoder.returns_ensureLen,
    Decoder.returns_first, Decoder.returns_advance, Decoder.returns_pure]
  constructor
  · rintro ⟨-, _, ⟨-, rfl⟩, first, _, ⟨hfirst, rfl⟩, -, _, ⟨-, rfl⟩, rfl, rfl⟩
    obtain ⟨tail, rfl⟩ := List.head?_eq_some_iff.mp hfirst
    rfl
  · rintro rfl
    exact ⟨(), _, ⟨by simp, rfl⟩, v, _, ⟨rfl, rfl⟩, (), r, ⟨by simp, rfl⟩, rfl, rfl⟩

/-- A header is decoded from the bytes that have its format. -/
theorem returns_decode {b r : Bytes} {header : SubgroupHeader} :
    decode.Returns b header r ↔
      ∃ streamType c, Format IsVarint streamType header c ∧ b = c ++ r := by
  simp only [decode, Decoder.returns_bind, Decoder.returns_ensure, Decoder.returns_ite,
    Decoder.returns_map, Decoder.returns_pure, returns_decodeVarint_iff, returns_decodePriority]
  constructor
  · rintro ⟨streamType, _, ⟨typeBytes, htype, rfl⟩, -, _, ⟨hvalid, rfl⟩, trackAlias, _,
      ⟨aliasBytes, halias, rfl⟩, groupId, _, ⟨groupBytes, hgroup, rfl⟩, h⟩
    rcases h with
        ⟨hmode, _, _, ⟨id, ⟨idBytes, hid, rfl⟩, rfl⟩, h⟩ | ⟨hmode, _, _, ⟨rfl, rfl⟩, h⟩ <;>
      rcases h with
        ⟨hpriority, _, _, ⟨v, rfl, rfl⟩, rfl, rfl⟩ | ⟨hpriority, _, _, ⟨rfl, rfl⟩, rfl, rfl⟩
    · exact ⟨_, _, .mk ⟨hvalid, rfl, rfl, hmode.symm, hpriority.symm⟩ htype halias hgroup hid,
        by simp⟩
    · exact ⟨_, _, .mk ⟨hvalid, rfl, rfl, hmode.symm, (Bool.eq_false_iff.mpr hpriority).symm⟩
        htype halias hgroup hid, by simp⟩
    · exact ⟨_, _, .mk ⟨hvalid, rfl, rfl, (Bool.eq_false_iff.mpr hmode).symm, hpriority.symm⟩
        htype halias hgroup rfl, by simp⟩
    · exact ⟨_, _, .mk ⟨hvalid, rfl, rfl, (Bool.eq_false_iff.mpr hmode).symm,
        (Bool.eq_false_iff.mpr hpriority).symm⟩ htype halias hgroup rfl, by simp⟩
  · rintro ⟨streamType, _, ⟨htype, typeField, aliasField, groupField, idField⟩, rfl⟩
    obtain ⟨trackAlias, groupId, _, _, subgroupId, priority⟩ := header
    obtain ⟨hvalid, rfl, rfl, hmode, hpriority⟩ := htype
    refine ⟨streamType, _, ⟨_, typeField, by simp only [List.append_assoc]; rfl⟩, (), _,
      ⟨hvalid, rfl⟩, trackAlias, _, ⟨_, aliasField, rfl⟩, groupId, _, ⟨_, groupField, rfl⟩, ?_⟩
    cases subgroupId with
    | some id =>
      refine .inl ⟨hmode.symm, some id, _, ⟨id, ⟨_, idField, rfl⟩, rfl⟩, ?_⟩
      cases priority with
      | some v => exact .inl ⟨hpriority.symm, some v, r, ⟨v, rfl, rfl⟩, rfl, rfl⟩
      | none => exact .inr ⟨Bool.eq_false_iff.mp hpriority.symm, none, r, ⟨rfl, rfl⟩, rfl, rfl⟩
    | none =>
      obtain rfl := idField
      refine .inr ⟨Bool.eq_false_iff.mp hmode.symm, none, _, ⟨rfl, rfl⟩, ?_⟩
      cases priority with
      | some v => exact .inl ⟨hpriority.symm, some v, r, ⟨v, rfl, rfl⟩, rfl, rfl⟩
      | none => exact .inr ⟨Bool.eq_false_iff.mp hpriority.symm, none, r, ⟨rfl, rfl⟩, rfl, rfl⟩

/-! ### The type that is written -/

/-- A header with the given bits. -/
def bare (hasProperties endOfGroup hasId hasPriority : Bool) : SubgroupHeader where
  trackAlias := 0
  groupId := 0
  hasProperties
  endOfGroup
  subgroupId := if hasId then some 0 else none
  publisherPriority := if hasPriority then some 0 else none

theorem typeByte_bare (header : SubgroupHeader) :
    header.typeByte = (bare header.hasProperties header.endOfGroup header.subgroupId.isSome
      header.publisherPriority.isSome).typeByte := by
  obtain ⟨_, _, _, _, subgroupId, priority⟩ := header
  cases subgroupId <;> cases priority <;> rfl

theorem hasType_typeByte (header : SubgroupHeader) : header.HasType header.typeByte := by
  have hall : ∀ p e s d : Bool, validType (bare p e s d).typeByte = true ∧
      p = ((bare p e s d).typeByte &&& 0x01 != 0) ∧ e = ((bare p e s d).typeByte &&& 0x08 != 0) ∧
      s = (subgroupIdMode (bare p e s d).typeByte == 0x02) ∧
      d = ((bare p e s d).typeByte &&& 0x20 == 0) := by decide
  rw [typeByte_bare]
  obtain ⟨hvalid, hproperties, hend, hid, hpriority⟩ := hall header.hasProperties
    header.endOfGroup header.subgroupId.isSome header.publisherPriority.isSome
  exact ⟨hvalid, hproperties, hend, hid, hpriority⟩

theorem subgroupIdMode_typeByte (header : SubgroupHeader) :
    subgroupIdMode header.typeByte ≠ 0x01 := by
  have hall : ∀ p e s d : Bool, subgroupIdMode (bare p e s d).typeByte ≠ 0x01 := by decide
  rw [typeByte_bare]
  exact hall _ _ _ _

theorem toNat_lt_of_validType {streamType : UInt64} (h : validType streamType = true) :
    streamType.toNat < 64 := by
  simp only [validType, Bool.or_eq_true, Bool.and_eq_true, decide_eq_true_eq,
    UInt64.le_iff_toNat_le, UInt64.reduceToNat] at h
  omega

/-- The bits leave no choice, but for a type whose mode says that the subgroup ID is the first
object's. -/
theorem HasType.typeByte_eq {header : SubgroupHeader} {streamType : UInt64}
    (h : header.HasType streamType) (hmode : subgroupIdMode streamType ≠ 0x01) :
    header.typeByte = streamType := by
  have hall : ∀ n < 64, validType (.ofNat n) = true → subgroupIdMode (.ofNat n) ≠ 0x01 →
      (bare (UInt64.ofNat n &&& 0x01 != 0) (UInt64.ofNat n &&& 0x08 != 0)
        (subgroupIdMode (.ofNat n) == 0x02) (UInt64.ofNat n &&& 0x20 == 0)).typeByte =
          .ofNat n := by
    decide +kernel
  have hstreamType := hall streamType.toNat (toNat_lt_of_validType h.valid)
  rw [UInt64.ofNat_toNat] at hstreamType
  rw [typeByte_bare, h.properties, h.endOfGroup, h.subgroupId, h.priority]
  exact hstreamType h.valid hmode

/-- What is written has the format, and each integer is as short as it can be. -/
theorem format_encode (header : SubgroupHeader) :
    Format IsMinimalVarint header.typeByte header header.encode := by
  unfold encode
  refine .mk (hasType_typeByte header) (isMinimalVarint_encode _) (isMinimalVarint_encode _)
    (isMinimalVarint_encode _) ?_
  cases header.subgroupId with
  | some id => exact isMinimalVarint_encode id
  | none => rfl

theorem Format.mono {enc enc' : UInt64 → Bytes → Prop} {streamType : UInt64}
    {header : SubgroupHeader} {c : Bytes} (h : ∀ v b, enc v b → enc' v b)
    (hc : Format enc streamType header c) : Format enc' streamType header c := by
  obtain ⟨htype, typeField, aliasField, groupField, idField⟩ := hc
  refine .mk htype (h _ _ typeField) (h _ _ aliasField) (h _ _ groupField) ?_
  cases hid : header.subgroupId with
  | some id =>
    rw [hid] at idField
    exact h _ _ idField
  | none =>
    rw [hid] at idField
    exact idField

/-- What is written is no longer than what was read. -/
theorem Format.length_encode_le {streamType : UInt64} {header : SubgroupHeader} {c : Bytes}
    (h : Format IsVarint streamType header c) (hmode : subgroupIdMode streamType ≠ 0x01) :
    header.encode.length ≤ c.length := by
  obtain ⟨htype, typeField, aliasField, groupField, idField⟩ := h
  obtain rfl := htype.typeByte_eq hmode
  have htypeLen := length_encodeVarint_le typeField
  have haliasLen := length_encodeVarint_le aliasField
  have hgroupLen := length_encodeVarint_le groupField
  unfold encode
  cases hid : header.subgroupId with
  | some id =>
    rw [hid] at idField
    have hidLen := length_encodeVarint_le idField
    simp only [List.length_append]
    omega
  | none =>
    simp only [List.length_append, List.length_nil]
    omega

/-- A header that is as short as it can be is the one that is written for its type. -/
theorem Format.eq_encode {header : SubgroupHeader} {c : Bytes}
    (h : Format IsMinimalVarint header.typeByte header c) : header.encode = c := by
  obtain ⟨htype, typeField, aliasField, groupField, idField⟩ := h
  rw [typeField.eq_encode, aliasField.eq_encode, groupField.eq_encode, encode]
  cases hid : header.subgroupId with
  | some id =>
    rw [hid] at idField
    rw [idField.eq_encode]
  | none =>
    rw [hid] at idField
    rw [idField]

theorem decode_encode (header : SubgroupHeader) (rest : Bytes) :
    decode.Returns (header.encode ++ rest) header rest :=
  returns_decode.mpr ⟨_, _, (format_encode header).mono fun _ _ h => h.1, rfl⟩

/-! ### What a header designates -/

/-- The subgroup ID that a header stands for. -/
inductive Designation where
  | zero
  | firstObject
  | explicit (id : UInt64)
deriving DecidableEq, Repr

def designation (streamType : UInt64) : Option UInt64 → Designation
  | some id => .explicit id
  | none => if subgroupIdMode streamType = 0x01 then .firstObject else .zero

/-- The bytes are read as a header that stands for the subgroup ID. -/
def Designates (b : Bytes) (d : Designation) : Prop :=
  ∃ streamType r header rest, decodeVarint.Returns b streamType r ∧ decode.Returns b header rest ∧
    designation streamType header.subgroupId = d

/-- What an accepted header designates follows from its type and from what was decoded. -/
theorem designates_iff {b rest r : Bytes} {header : SubgroupHeader} {streamType : UInt64}
    (hdecode : decode.Returns b header rest) (htype : decodeVarint.Returns b streamType r)
    (d : Designation) : Designates b d ↔ designation streamType header.subgroupId = d := by
  constructor
  · rintro ⟨streamType', r', header', rest', htype', hdecode', hd⟩
    obtain ⟨rfl, -⟩ := htype.unique htype'
    obtain ⟨rfl, -⟩ := hdecode.unique hdecode'
    exact hd
  · intro hd
    exact ⟨streamType, r, header, rest, htype, hdecode, hd⟩

theorem Format.type_returns {streamType : UInt64} {header : SubgroupHeader} {c : Bytes}
    (h : Format IsVarint streamType header c) (rest : Bytes) :
    ∃ r, decodeVarint.Returns (c ++ rest) streamType r := by
  obtain ⟨-, typeField, -, -, -⟩ := h
  simp only [List.append_assoc]
  exact ⟨_, typeField.returns _⟩

/-- The type that is read from the front of an accepted header is the type that it has. -/
theorem hasType_of_returns {b rest r : Bytes} {header : SubgroupHeader} {streamType : UInt64}
    (hdecode : decode.Returns b header rest) (htype : decodeVarint.Returns b streamType r) :
    header.HasType streamType := by
  obtain ⟨streamType', c, hformat, rfl⟩ := returns_decode.mp hdecode
  obtain ⟨_, htype'⟩ := hformat.type_returns rest
  obtain ⟨rfl, -⟩ := htype.unique htype'
  cases hformat
  assumption

/-- The header that was decoded from `b` says what `b` says when it is written again, and is written
as it was if `b` used the shortest integers. -/
structure KeepsMeaning (b : Bytes) (header : SubgroupHeader) (rest : Bytes) : Prop where
  readAgain : ∀ r, decode.Returns (header.encode ++ r) header r
  designation : ∀ d, Designates b d ↔ Designates header.encode d
  minimal : ∀ streamType c, Format IsMinimalVarint streamType header c → b = c ++ rest →
    header.encode = c

theorem returns_decode_encode (header : SubgroupHeader) :
    decode.Returns header.encode header [] := by
  simpa using decode_encode header []

/-- A header whose type does not say that the subgroup ID is the first object's keeps its
meaning. -/
theorem keepsMeaning_of_mode {b rest r : Bytes} {header : SubgroupHeader} {streamType : UInt64}
    (hdecode : decode.Returns b header rest) (htype : decodeVarint.Returns b streamType r)
    (hmode : subgroupIdMode streamType ≠ 0x01) : KeepsMeaning b header rest := by
  obtain rfl := (hasType_of_returns hdecode htype).typeByte_eq hmode
  refine ⟨decode_encode header, fun d => ?_, ?_⟩
  · obtain ⟨_, htypeAgain⟩ := ((format_encode header).mono fun _ _ h => h.1).type_returns []
    rw [List.append_nil] at htypeAgain
    rw [designates_iff hdecode htype, designates_iff (returns_decode_encode header) htypeAgain]
  · rintro streamType' c hformat rfl
    obtain ⟨_, htype'⟩ := (hformat.mono fun _ _ h => h.1).type_returns rest
    obtain ⟨rfl, -⟩ := htype.unique htype'
    exact hformat.eq_encode

/-- A header keeps its meaning exactly if its type does not say that the subgroup ID is the first
object's. -/
theorem keepsMeaning_iff {b rest r : Bytes} {header : SubgroupHeader} {streamType : UInt64}
    (hdecode : decode.Returns b header rest) (htype : decodeVarint.Returns b streamType r) :
    KeepsMeaning b header rest ↔ subgroupIdMode streamType ≠ 0x01 := by
  constructor
  · rintro ⟨-, hdesignation, -⟩ hmode
    have hnone : header.subgroupId = none := by
      simpa [hmode] using (hasType_of_returns hdecode htype).subgroupId
    obtain ⟨_, htypeAgain⟩ := ((format_encode header).mono fun _ _ h => h.1).type_returns []
    rw [List.append_nil] at htypeAgain
    have hfirst := (hdesignation .firstObject).mp ((designates_iff hdecode htype _).mpr
      (by simp [designation, hnone, hmode]))
    have hzero := (designates_iff (returns_decode_encode header) htypeAgain _).mp hfirst
    simp [designation, hnone, subgroupIdMode_typeByte] at hzero
  · exact keepsMeaning_of_mode hdecode htype

/-- The header of a subgroup whose ID is that of its first object. -/
theorem not_keepsMeaning_firstObject : ¬∀ (b : Bytes) (header : SubgroupHeader) (rest : Bytes),
    decode.Returns b header rest → KeepsMeaning b header rest := by
  intro h
  have hdecode : decode.Returns [0x12, 1, 2, 128] ⟨1, 2, false, false, none, some 128⟩ [] := by
    decide
  have htype : decodeVarint.Returns [0x12, 1, 2, 128] 0x12 [1, 2, 128] := by decide
  have hfirst : Designates [0x12, 1, 2, 128] .firstObject :=
    (designates_iff hdecode htype _).mpr rfl
  have hagain := ((h _ _ _ hdecode).designation .firstObject).mp hfirst
  have hdecode' : decode.Returns [0x10, 1, 2, 128] ⟨1, 2, false, false, none, some 128⟩ [] := by
    decide
  have htype' : decodeVarint.Returns [0x10, 1, 2, 128] 0x10 [1, 2, 128] := by decide
  have hzero := (designates_iff hdecode' htype' _).mp hagain
  cases hzero

theorem keepsMeaning_explicitId :
    KeepsMeaning [0x14, 1, 2, 3, 128] ⟨1, 2, false, false, some 3, some 128⟩ [] := by
  have hdecode : decode.Returns [0x14, 1, 2, 3, 128] ⟨1, 2, false, false, some 3, some 128⟩ [] := by
    decide
  have htype : decodeVarint.Returns [0x14, 1, 2, 3, 128] 0x14 [1, 2, 3, 128] := by decide
  exact (keepsMeaning_iff hdecode htype).mpr (by decide)

end SubgroupHeader

end Moqt.Wire
