import Moqt.Wire.Stream

/-! The objects of a data stream: how they are read, which bytes that takes, and how the draft lays
them out. -/

namespace Moqt.Wire

open Library

structure ObjectHeader where
  objectIdDelta : UInt64
  payloadLength : UInt64
deriving DecidableEq, Repr

def skipProperties (hasProperties : Bool) : Decoder Unit :=
  if hasProperties then skipLengthPrefixed "object properties truncated" else pure ()

/-- `ObjectHeader::decode` -/
def ObjectHeader.decode (hasProperties : Bool) : Decoder ObjectHeader := do
  let objectIdDelta ← decodeVarint
  let payloadLength ← decodeVarint
  skipProperties hasProperties
  return { objectIdDelta, payloadLength }

/-- The properties, with their length in front. -/
def readProperties : Reader Bytes := do
  let (propsLen, propsLenBytes) ← readVarint
  Reader.allocate propsLen.toNat
  let props ← Reader.readBuffer propsLen.toNat
  return propsLenBytes ++ props

/-- `read_object`: the header, the payload and the bytes of the header. -/
def readObject (hasProperties : Bool) : Reader (Option (ObjectHeader × Bytes × Bytes)) := do
  -- a stream that ends in front of the object is not told from one that ends within the varint
  match ← Reader.endOnReadExact readVarint with
  | none => return none
  | some (objectIdDelta, deltaBytes) =>
    let (payloadLength, lenBytes) ← readVarint
    let properties ← Reader.optional hasProperties readProperties
    Reader.allocate payloadLength.toNat
    let payload ← Reader.readBuffer payloadLength.toNat
    return some ({ objectIdDelta, payloadLength }, payload, deltaBytes ++ lenBytes ++ properties)

/-! ### The bytes of an object -/

/-- The bytes of the properties, in a stream that has them or in one that does not. -/
def IsProperties : (hasProperties : Bool) → Bytes → Prop
  | true, b => ∃ props, LengthPrefixed props b
  | false, b => b = []

/-- The bytes that are read as the header: the length of the payload is in front of the
properties. -/
inductive HeaderFormat (hasProperties : Bool) (header : ObjectHeader) : Bytes → Prop
  | mk {deltaBytes lenBytes properties : Bytes}
      (deltaField : IsVarint header.objectIdDelta deltaBytes)
      (lengthField : IsVarint header.payloadLength lenBytes)
      (propertiesField : IsProperties hasProperties properties) :
    HeaderFormat hasProperties header (deltaBytes ++ lenBytes ++ properties)

theorem HeaderFormat.ne_nil {hasProperties : Bool} {header : ObjectHeader} {raw : Bytes}
    (h : HeaderFormat hasProperties header raw) : raw ≠ [] := by
  obtain ⟨deltaField, -, -⟩ := h
  simp [deltaField.ne_nil]

theorem returns_skipProperties {hasProperties : Bool} {b r : Bytes} {u : Unit} :
    (skipProperties hasProperties).Returns b u r ↔
      ∃ c, IsProperties hasProperties c ∧ b = c ++ r := by
  cases hasProperties with
  | false => simp [skipProperties, IsProperties]
  | true =>
    simp only [skipProperties, if_true, returns_skipLengthPrefixed, IsProperties]
    constructor
    · rintro ⟨props, c, hc, rfl⟩
      exact ⟨c, ⟨props, hc⟩, rfl⟩
    · rintro ⟨c, ⟨props, hc⟩, rfl⟩
      exact ⟨props, c, hc, rfl⟩

/-- A header is decoded from its bytes, whatever follows them. -/
theorem ObjectHeader.returns_decode {hasProperties : Bool} {b r : Bytes} {header : ObjectHeader} :
    (decode hasProperties).Returns b header r ↔
      ∃ raw, HeaderFormat hasProperties header raw ∧ b = raw ++ r := by
  simp only [decode, Decoder.returns_bind, returns_decodeVarint_iff, returns_skipProperties,
    Decoder.returns_pure]
  constructor
  · rintro ⟨delta, _, ⟨deltaBytes, hdelta, rfl⟩, len, _, ⟨lenBytes, hlen, rfl⟩, -, _,
      ⟨properties, hproperties, rfl⟩, rfl, rfl⟩
    exact ⟨_, .mk hdelta hlen hproperties, by simp⟩
  · rintro ⟨_, ⟨deltaField, lengthField, propertiesField⟩, rfl⟩
    refine ⟨_, _, ⟨_, deltaField, ?_⟩, _, _, ⟨_, lengthField, rfl⟩, (), r,
      ⟨_, propertiesField, rfl⟩, rfl, rfl⟩
    simp only [List.append_assoc]

/-- What is in a stream fits into a buffer. -/
theorem le_isizeMax_of_splits {s t : ByteStream} {b : Bytes} (h : s.Splits b t) :
    b.length ≤ isizeMax := by
  have hfits := s.fits
  rw [h.1, List.length_append] at hfits
  unfold isizeMax
  omega

/-- The properties are taken from the front of the stream. -/
theorem returns_readProperties {hasProperties : Bool} {s t : ByteStream} {b : Bytes} :
    (Reader.optional hasProperties readProperties).Returns s b t ↔
      IsProperties hasProperties b ∧ s.Splits b t := by
  rw [Reader.returns_optional]
  cases hasProperties with
  | false =>
    simp only [Bool.false_eq_true, false_and, true_and, false_or, IsProperties]
    constructor
    · rintro ⟨rfl, rfl⟩
      exact ⟨rfl, .refl s⟩
    · rintro ⟨rfl, hsplit⟩
      exact ⟨rfl, ByteStream.eq_iff.mpr hsplit⟩
  | true =>
    simp only [readProperties, Reader.returns_bind, Reader.returns_allocate,
      Reader.returns_readBuffer, Reader.returns_pure, true_and, reduceCtorEq, false_and, or_false,
      IsProperties]
    constructor
    · rintro ⟨⟨len, lenBytes⟩, _, hlen, -, _, ⟨-, rfl⟩, props, _, ⟨hprops, hsplit⟩, rfl, rfl⟩
      obtain ⟨hlen, hsplitLen⟩ := returns_readVarint.mp hlen
      exact ⟨⟨props, len, lenBytes, hlen, hprops.symm, rfl⟩, hsplitLen.trans hsplit⟩
    · rintro ⟨⟨props, len, lenBytes, hlen, hprops, rfl⟩, hsplit⟩
      obtain ⟨mid, hsplitLen, hsplitProps⟩ := ByteStream.splits_append.mp hsplit
      have hfits := le_isizeMax_of_splits hsplitProps
      exact ⟨(len, lenBytes), mid, returns_readVarint.mpr ⟨hlen, hsplitLen⟩, (), mid,
        ⟨hprops ▸ hfits, rfl⟩, props, t, ⟨hprops.symm, hsplitProps⟩, rfl, rfl⟩

/-- An object is taken from the front of the stream. -/
theorem returns_readObject {hasProperties : Bool} {s t : ByteStream} {header : ObjectHeader}
    {payload raw : Bytes} :
    (readObject hasProperties).Returns s (some (header, payload, raw)) t ↔
      HeaderFormat hasProperties header raw ∧ payload.length = header.payloadLength.toNat ∧
        s.Splits (raw ++ payload) t := by
  simp only [readObject, Reader.returns_bind]
  constructor
  · rintro ⟨_ | ⟨delta, deltaBytes⟩, s₁, hdelta, h⟩
    · simp at h
    · simp only [Reader.returns_bind, returns_readProperties, Reader.returns_allocate,
        Reader.returns_readBuffer, Reader.returns_pure, Option.some.injEq, Prod.mk.injEq] at h
      obtain ⟨⟨len, lenBytes⟩, s₂, hlen, properties, s₃, ⟨hproperties, hsplitProperties⟩, -, _,
        ⟨-, rfl⟩, _, _, ⟨hpayload, hsplit⟩, ⟨rfl, rfl, rfl⟩, rfl⟩ := h
      obtain ⟨hdelta, hsplitDelta⟩ :=
        returns_readVarint.mp (Reader.returns_endOnReadExact_some.mp hdelta)
      obtain ⟨hlen, hsplitLen⟩ := returns_readVarint.mp hlen
      exact ⟨.mk hdelta hlen hproperties, hpayload,
        ((hsplitDelta.trans hsplitLen).trans hsplitProperties).trans hsplit⟩
  · rintro ⟨⟨deltaField, lengthField, propertiesField⟩, hpayload, hsplit⟩
    obtain ⟨s₃, hsplit, hsplitPayload⟩ := ByteStream.splits_append.mp hsplit
    obtain ⟨s₂, hsplit, hsplitProperties⟩ := ByteStream.splits_append.mp hsplit
    obtain ⟨s₁, hsplitDelta, hsplitLen⟩ := ByteStream.splits_append.mp hsplit
    have hfits := le_isizeMax_of_splits hsplitPayload
    refine ⟨some (header.objectIdDelta, _), s₁, Reader.returns_endOnReadExact_some.mpr
      (returns_readVarint.mpr ⟨deltaField, hsplitDelta⟩), ?_⟩
    simp only [Reader.returns_bind, returns_readProperties, Reader.returns_allocate,
      Reader.returns_readBuffer, Reader.returns_pure, Option.some.injEq, Prod.mk.injEq]
    exact ⟨(header.payloadLength, _), s₂, returns_readVarint.mpr ⟨lengthField, hsplitLen⟩, _, s₃,
      ⟨propertiesField, hsplitProperties⟩, (), s₃, ⟨hpayload ▸ hfits, rfl⟩, payload, t,
      ⟨hpayload, hsplitPayload⟩, ⟨rfl, rfl, rfl⟩, rfl⟩

/-! ### The end of a stream -/

theorem returns_readObject_none {hasProperties : Bool} {s : ByteStream} :
    (∃ t, (readObject hasProperties).Returns s none t) ↔ cutVarint s.bytes = true := by
  rw [← exists_fails_readExact_iff, ← Reader.returns_endOnReadExact_none]
  simp only [readObject, Reader.returns_bind]
  constructor
  · rintro ⟨t, _ | ⟨delta, deltaBytes⟩, mid, hread, h⟩
    · exact ⟨mid, hread⟩
    · simp at h
  · rintro ⟨t, hread⟩
    exact ⟨t, none, t, hread, Reader.returns_pure.mpr ⟨rfl, rfl⟩⟩

/-- The length of the properties. -/
def propertiesLength : Decoder UInt64 := do
  let _ ← decodeVarint
  let _ ← decodeVarint
  decodeVarint

/-- The length that is decoded is more than a buffer may have. -/
def exceeds (d : Decoder UInt64) (b : Bytes) : Bool :=
  match (d b).outcome with
  | .ok n => isizeMax < n.toNat
  | _ => false

theorem exceeds_iff {d : Decoder UInt64} {b : Bytes} :
    exceeds d b = true ↔ ∃ n r, d.Returns b n r ∧ isizeMax < n.toNat := by
  unfold exceeds Decoder.Returns
  split
  next n h => simp [h]
  next hother =>
    simp only [Bool.false_eq_true, false_iff, not_exists, not_and]
    rintro n r ⟨h, -⟩
    exact absurd h (hother n)

/-- The object in front declares more bytes than a buffer may have. -/
def oversized (hasProperties : Bool) (b : Bytes) : Bool :=
  exceeds (ObjectHeader.payloadLength <$> ObjectHeader.decode hasProperties) b ||
    hasProperties && exceeds propertiesLength b

theorem readVarint_ne_panic {s : ByteStream} {m : String} : ¬readVarint.Fails s (.panic m) := by
  intro h
  rcases fails_readVarint h with ⟨-, x, hx⟩ | ⟨-, x, hx⟩ <;> cases hx

theorem panics_readProperties_iff {hasProperties : Bool} {s : ByteStream} {m : String} :
    (Reader.optional hasProperties readProperties).Fails s (.panic m) ↔ hasProperties = true ∧
      ∃ propsLen r, decodeVarint.Returns s.bytes propsLen r ∧ isizeMax < propsLen.toNat ∧
        m = "capacity overflow" := by
  cases hasProperties with
  | false => simp [Reader.optional]
  | true =>
    simp only [Reader.optional, if_true, readProperties, Reader.fails_bind, readVarint_ne_panic,
      false_or, Reader.fails_allocate, Reader.fails_readBuffer, Reader.fails_pure, true_and,
      and_false, exists_false, or_false, reduceCtorEq, Failure.panic.injEq]
    constructor
    · rintro ⟨⟨len, lenBytes⟩, mid, hread, hlen, rfl⟩
      obtain ⟨hlenBytes, hsplit⟩ := returns_readVarint.mp hread
      exact ⟨len, mid.bytes, hsplit.1 ▸ hlenBytes.returns mid.bytes, hlen, rfl⟩
    · rintro ⟨len, r, hreturns, hlen, rfl⟩
      obtain ⟨c, hc, hbytes⟩ := returns_decodeVarint_iff.mp hreturns
      obtain ⟨mid, hsplit, -⟩ := ByteStream.exists_splits hbytes
      exact ⟨(len, c), mid, returns_readVarint.mpr ⟨hc, hsplit⟩, hlen, rfl⟩

/-- The reader panics on such an object, and on no other bytes. -/
theorem panics_readObject_iff {hasProperties : Bool} {s : ByteStream} :
    (∃ m, (readObject hasProperties).Fails s (.panic m)) ↔
      oversized hasProperties s.bytes = true := by
  simp only [oversized, Bool.or_eq_true, Bool.and_eq_true, exceeds_iff, Decoder.returns_map]
  constructor
  · rintro ⟨m, h⟩
    simp only [readObject, Reader.fails_bind, Reader.fails_endOnReadExact, readVarint_ne_panic,
      false_and, false_or] at h
    obtain ⟨_ | ⟨delta, deltaBytes⟩, s₁, hdelta, h⟩ := h
    · simp at h
    obtain ⟨hdelta, hsplitDelta⟩ :=
      returns_readVarint.mp (Reader.returns_endOnReadExact_some.mp hdelta)
    simp only [Reader.fails_bind, readVarint_ne_panic, false_or, panics_readProperties_iff,
      returns_readProperties, Reader.fails_allocate, Reader.fails_readBuffer, Reader.fails_pure,
      and_false, exists_false, or_false, reduceCtorEq, Failure.panic.injEq] at h
    obtain ⟨⟨len, lenBytes⟩, s₂, hlen, h⟩ := h
    obtain ⟨hlen, hsplitLen⟩ := returns_readVarint.mp hlen
    rcases h with ⟨hprop, propsLen, r, hprops, hlarge, -⟩ |
      ⟨properties, s₃, ⟨hproperties, hsplitProperties⟩, hlarge, -⟩
    · refine .inr ⟨hprop, propsLen, r, ?_, hlarge⟩
      simp only [propertiesLength, Decoder.returns_bind]
      exact ⟨delta, _, returns_decodeVarint_iff.mpr ⟨_, hdelta, hsplitDelta.1⟩, len, _,
        returns_decodeVarint_iff.mpr ⟨_, hlen, hsplitLen.1⟩, hprops⟩
    · have hsplit := (hsplitDelta.trans hsplitLen).trans hsplitProperties
      exact .inl ⟨len, s₃.bytes, ⟨⟨delta, len⟩, ObjectHeader.returns_decode.mpr
        ⟨_, .mk hdelta hlen hproperties, hsplit.1⟩, rfl⟩, hlarge⟩
  · intro h
    refine ⟨"capacity overflow", ?_⟩
    simp only [readObject, Reader.fails_bind]
    rcases h with ⟨_, r, ⟨header, hdecode, rfl⟩, hlarge⟩ | ⟨hprop, propsLen, r, hreturns, hlarge⟩
    · obtain ⟨_, ⟨deltaField, lengthField, propertiesField⟩, hbytes⟩ :=
        ObjectHeader.returns_decode.mp hdecode
      obtain ⟨s₃, hsplit, -⟩ := ByteStream.exists_splits hbytes
      obtain ⟨s₂, hsplit, hsplitProperties⟩ := ByteStream.splits_append.mp hsplit
      obtain ⟨s₁, hsplitDelta, hsplitLen⟩ := ByteStream.splits_append.mp hsplit
      refine .inr ⟨some (header.objectIdDelta, _), s₁, Reader.returns_endOnReadExact_some.mpr
        (returns_readVarint.mpr ⟨deltaField, hsplitDelta⟩), ?_⟩
      simp only [Reader.fails_bind, returns_readProperties, Reader.fails_allocate]
      exact .inr ⟨(header.payloadLength, _), s₂, returns_readVarint.mpr ⟨lengthField, hsplitLen⟩,
        .inr ⟨_, s₃, ⟨propertiesField, hsplitProperties⟩, .inl ⟨hlarge, trivial⟩⟩⟩
    · simp only [propertiesLength, Decoder.returns_bind] at hreturns
      obtain ⟨delta, _, hdelta, len, _, hlen, hprops⟩ := hreturns
      obtain ⟨deltaBytes, hdeltaBytes, hbytes⟩ := returns_decodeVarint_iff.mp hdelta
      obtain ⟨lenBytes, hlenBytes, rfl⟩ := returns_decodeVarint_iff.mp hlen
      obtain ⟨s₁, hsplitDelta, hrest⟩ := ByteStream.exists_splits hbytes
      obtain ⟨s₂, hsplitLen, rfl⟩ := ByteStream.exists_splits hrest
      refine .inr ⟨some (delta, _), s₁, Reader.returns_endOnReadExact_some.mpr
        (returns_readVarint.mpr ⟨hdeltaBytes, hsplitDelta⟩), ?_⟩
      simp only [Reader.fails_bind, panics_readProperties_iff]
      exact .inr ⟨(len, _), s₂, returns_readVarint.mpr ⟨hlenBytes, hsplitLen⟩,
        .inl ⟨hprop, propsLen, r, hprops, hlarge, trivial⟩⟩

/-- There are no more objects, and there will be none. -/
def AtEnd (s : ByteStream) : Prop := s.bytes = [] ∧ s.ending = .finished

instance (s : ByteStream) : Decidable (AtEnd s) := inferInstanceAs (Decidable (_ ∧ _))

/-- A whole object is in front. -/
def HasObject (hasProperties : Bool) (s : ByteStream) : Prop :=
  ∃ header raw payload rest, HeaderFormat hasProperties header raw ∧
    payload.length = header.payloadLength.toNat ∧ s.bytes = raw ++ payload ++ rest

/-- A read on the stream returns `Ok(None)` exactly at the end, and fails where the stream is cut
short. -/
structure EndsFaithfully (hasProperties : Bool) (s : ByteStream) : Prop where
  none_iff : (∃ t, (readObject hasProperties).Returns s none t) ↔ AtEnd s
  cut : ¬HasObject hasProperties s → ¬AtEnd s →
    ∃ e, (readObject hasProperties).Fails s e ∧ e.isPanic = false

/-- The stream does not end within the first varint of an object, is not reset in front of one, and
declares no more bytes than a buffer may have. -/
def EndsWhole (hasProperties : Bool) (s : ByteStream) : Prop :=
  (cutVarint s.bytes = true → AtEnd s) ∧ oversized hasProperties s.bytes = false

instance (hasProperties : Bool) (s : ByteStream) : Decidable (EndsWhole hasProperties s) :=
  inferInstanceAs (Decidable (_ ∧ _))

theorem hasObject_iff {hasProperties : Bool} {s : ByteStream} :
    HasObject hasProperties s ↔ ∃ o t, (readObject hasProperties).Returns s (some o) t := by
  constructor
  · rintro ⟨header, raw, payload, rest, hformat, hlen, hbytes⟩
    obtain ⟨t, hsplit, -⟩ := ByteStream.exists_splits hbytes
    exact ⟨(header, payload, raw), t, returns_readObject.mpr ⟨hformat, hlen, hsplit⟩⟩
  · rintro ⟨⟨header, payload, raw⟩, t, hreturns⟩
    obtain ⟨hformat, hlen, hsplit⟩ := returns_readObject.mp hreturns
    exact ⟨header, raw, payload, t.bytes, hformat, hlen, hsplit.1⟩

instance (hasProperties : Bool) (s : ByteStream) : Decidable (HasObject hasProperties s) :=
  decidable_of_iff (∃ read ∈ (readObject hasProperties s).toOption, read.1.isSome = true) <| by
    rw [hasObject_iff]
    constructor
    · rintro ⟨⟨_ | o, t⟩, hread, hsome⟩
      · cases hsome
      · exact ⟨o, t, Reader.toOption_eq_some.mp hread⟩
    · rintro ⟨o, t, hreturns⟩
      exact ⟨(some o, t), Reader.toOption_eq_some.mpr hreturns, rfl⟩

/-- A stream with a whole object in front does not end within its first varint. -/
theorem HasObject.endsWhole {hasProperties : Bool} {s : ByteStream}
    (h : HasObject hasProperties s) : EndsWhole hasProperties s := by
  obtain ⟨o, t, hreturns⟩ := hasObject_iff.mp h
  constructor
  · intro hcut
    obtain ⟨_, hnone⟩ := returns_readObject_none.mpr hcut
    obtain ⟨hsame, -⟩ := hreturns.unique hnone
    cases hsame
  · by_contra hlarge
    obtain ⟨m, hpanic⟩ := panics_readObject_iff.mpr (Bool.eq_true_of_not_eq_false hlarge)
    exact hreturns.not_fails hpanic

theorem endsFaithfully_iff {hasProperties : Bool} {s : ByteStream} :
    EndsFaithfully hasProperties s ↔ EndsWhole hasProperties s := by
  constructor
  · intro h
    refine ⟨fun hcut => h.none_iff.mp (returns_readObject_none.mpr hcut), ?_⟩
    by_contra hlarge
    obtain ⟨m, hpanic⟩ := panics_readObject_iff.mpr (Bool.eq_true_of_not_eq_false hlarge)
    have hobject : ¬HasObject hasProperties s := by
      intro hobject
      obtain ⟨o, t, hreturns⟩ := hasObject_iff.mp hobject
      exact hreturns.not_fails hpanic
    have hend : ¬AtEnd s := by
      intro hend
      obtain ⟨t, hreturns⟩ := h.none_iff.mpr hend
      exact hreturns.not_fails hpanic
    obtain ⟨e, he, hno⟩ := h.cut hobject hend
    obtain rfl := he.unique hpanic
    cases hno
  · rintro ⟨hcut, hsmall⟩
    constructor
    · rw [returns_readObject_none]
      refine ⟨hcut, fun hend => ?_⟩
      rw [hend.1]
      rfl
    · intro hobject hend
      rcases (readObject hasProperties).returns_or_fails s with ⟨o, t, hreturns⟩ | ⟨e, he⟩
      · cases o with
        | none => exact absurd (hcut (returns_readObject_none.mp ⟨t, hreturns⟩)) hend
        | some o => exact absurd (hasObject_iff.mpr ⟨o, t, hreturns⟩) hobject
      · refine ⟨e, he, ?_⟩
        cases e with
        | panic m =>
          have hlarge := panics_readObject_iff.mp ⟨m, he⟩
          rw [hsmall] at hlarge
          cases hlarge
        | readExact x => rfl
        | error m => rfl

/-! ### The layout of the draft -/

/-- A value and one of its encodings. -/
structure Varint where
  value : UInt64
  bytes : Bytes
  isVarint : IsVarint value bytes

/-- The fields of an object on a subgroup stream. -/
structure DraftObject where
  objectIdDelta : Varint
  propertiesLength : Varint
  properties : Bytes
  payloadLength : Varint
  status : Varint
  payload : Bytes
  propertiesFit : propertiesLength.value.toNat = properties.length
  payloadFit : payloadLength.value.toNat = payload.length

namespace DraftObject

/-- The properties are there if the stream has them, and the status is there if the payload is
empty. -/
def serialize (hasProperties : Bool) (o : DraftObject) : Bytes :=
  o.objectIdDelta.bytes ++
    (if hasProperties then o.propertiesLength.bytes ++ o.properties else []) ++
    o.payloadLength.bytes ++ (if o.payload = [] then o.status.bytes else []) ++ o.payload

/-- The header that reading the object should yield. -/
def header (o : DraftObject) : ObjectHeader := ⟨o.objectIdDelta.value, o.payloadLength.value⟩

/-- The two layouts coincide on the object: it has a payload, and, in a stream that has properties,
there are as many bytes of properties as of payload, and the properties with the length of the
payload behind them are a block of their own. -/
def Coincides (hasProperties : Bool) (o : DraftObject) : Prop :=
  o.payload ≠ [] ∧ (hasProperties = true → o.properties.length = o.payload.length ∧
    ∃ block, LengthPrefixed block (o.properties ++ o.payloadLength.bytes))

/-- Each call of `read_object` on the stream yields the next object and takes its bytes. -/
inductive ReadsExactly (hasProperties : Bool) : ByteStream → List DraftObject → ByteStream → Prop
  | nil (s : ByteStream) : ReadsExactly hasProperties s [] s
  | cons {s t u : ByteStream} {o : DraftObject} {os : List DraftObject} {raw : Bytes}
      (hsplit : s.Splits (o.serialize hasProperties) t)
      (hread : (readObject hasProperties).Returns s (some (o.header, o.payload, raw)) t)
      (hrest : ReadsExactly hasProperties t os u) : ReadsExactly hasProperties s (o :: os) u

/-- Each call of `ObjectHeader::decode` yields the header of the next object, whose payload is what
it leaves in front. -/
inductive DecodesExactly (hasProperties : Bool) : Bytes → List DraftObject → Bytes → Prop
  | nil (b : Bytes) : DecodesExactly hasProperties b [] b
  | cons {b r : Bytes} {o : DraftObject} {os : List DraftObject}
      (hdecode : (ObjectHeader.decode hasProperties).Returns (o.serialize hasProperties ++ b)
        o.header (o.payload ++ b))
      (hrest : DecodesExactly hasProperties b os r) :
    DecodesExactly hasProperties (o.serialize hasProperties ++ b) (o :: os) r

/-- The code finds the object's header, with the payload behind it, exactly where the layouts
coincide. -/
theorem coincides_iff {hasProperties : Bool} {o : DraftObject} :
    (∃ raw, HeaderFormat hasProperties o.header raw ∧
      o.serialize hasProperties = raw ++ o.payload) ↔ o.Coincides hasProperties := by
  constructor
  · rintro ⟨_, ⟨deltaField, lengthField, propertiesField⟩, heq⟩
    have heq := List.append_cancel_right heq
    simp only [List.append_assoc] at heq
    obtain ⟨-, -, heq⟩ := o.objectIdDelta.isVarint.append_inj deltaField heq
    cases hasProperties with
    | false =>
      obtain rfl := propertiesField
      simp only [Bool.false_eq_true, if_false, List.nil_append] at heq
      obtain ⟨-, -, hstatus⟩ := o.payloadLength.isVarint.append_inj lengthField heq
      refine ⟨fun hnil => ?_, by simp⟩
      rw [if_pos hnil] at hstatus
      exact o.status.isVarint.ne_nil hstatus
    | true =>
      obtain ⟨block, hblock⟩ := propertiesField
      simp only [if_true, List.append_assoc] at heq
      -- the length of the properties is read as the length of the payload
      obtain ⟨hlen, -, heq⟩ := o.propertiesLength.isVarint.append_inj lengthField heq
      have hlens : o.properties.length = o.payload.length := by
        rw [← o.propertiesFit, hlen, ← o.payloadFit]
        rfl
      have hne : o.payload ≠ [] := by
        intro hnil
        obtain ⟨len, n, hn, hlen, rfl⟩ := hblock
        have hprops : o.properties = [] := List.eq_nil_of_length_eq_zero (by rw [hlens, hnil]; rfl)
        rw [hprops, if_pos hnil, List.nil_append] at heq
        obtain ⟨rfl, -, hstatus⟩ := o.payloadLength.isVarint.append_inj hn heq
        rw [o.payloadFit, hnil] at hlen
        rw [List.eq_nil_of_length_eq_zero hlen.symm] at hstatus
        exact o.status.isVarint.ne_nil hstatus
      rw [if_neg hne, List.append_nil] at heq
      exact ⟨hne, fun _ => ⟨hlens, block, heq ▸ hblock⟩⟩
  · rintro ⟨hne, hprops⟩
    cases hasProperties with
    | false =>
      refine ⟨_, .mk o.objectIdDelta.isVarint o.payloadLength.isVarint rfl, ?_⟩
      simp [serialize, hne]
    | true =>
      obtain ⟨hlens, block, hblock⟩ := hprops rfl
      have hlen : o.propertiesLength.value = o.payloadLength.value := by
        apply UInt64.toNat.inj
        rw [o.propertiesFit, o.payloadFit, hlens]
      have hlength := o.propertiesLength.isVarint
      rw [hlen] at hlength
      refine ⟨_, .mk o.objectIdDelta.isVarint hlength ⟨block, hblock⟩, ?_⟩
      simp [serialize, hne]

theorem readObject_coincides {hasProperties : Bool} {o : DraftObject} {s t : ByteStream}
    (hsplit : s.Splits (o.serialize hasProperties) t) :
    (∃ raw, (readObject hasProperties).Returns s (some (o.header, o.payload, raw)) t) ↔
      o.Coincides hasProperties := by
  rw [← coincides_iff]
  constructor
  · rintro ⟨raw, hread⟩
    obtain ⟨hformat, -, hsplit'⟩ := returns_readObject.mp hread
    exact ⟨raw, hformat, List.append_cancel_right (hsplit.1.symm.trans hsplit'.1)⟩
  · rintro ⟨raw, hformat, heq⟩
    exact ⟨raw, returns_readObject.mpr ⟨hformat, o.payloadFit.symm, heq ▸ hsplit⟩⟩

theorem decode_coincides {hasProperties : Bool} {o : DraftObject} {b : Bytes} :
    (ObjectHeader.decode hasProperties).Returns (o.serialize hasProperties ++ b) o.header
      (o.payload ++ b) ↔ o.Coincides hasProperties := by
  rw [← coincides_iff, ObjectHeader.returns_decode]
  constructor
  · rintro ⟨raw, hformat, heq⟩
    rw [← List.append_assoc] at heq
    exact ⟨raw, hformat, List.append_cancel_right heq⟩
  · rintro ⟨raw, hformat, heq⟩
    exact ⟨raw, hformat, by rw [heq, List.append_assoc]⟩

/-- A list of objects in the layout of the draft is read, and decoded header by header, object by
object exactly if the layouts coincide on each of them. -/
theorem readsExactly_iff {hasProperties : Bool} {os : List DraftObject} {s t : ByteStream}
    (hsplit : s.Splits (os.flatMap (serialize hasProperties)) t) :
    (ReadsExactly hasProperties s os t ∧ DecodesExactly hasProperties s.bytes os t.bytes) ↔
      ∀ o ∈ os, o.Coincides hasProperties := by
  induction os generalizing s with
  | nil =>
    obtain rfl := ByteStream.eq_iff.mpr hsplit
    exact ⟨by simp, fun _ => ⟨.nil s, .nil _⟩⟩
  | cons o os ih =>
    obtain ⟨mid, hfirst, hrest⟩ := ByteStream.splits_append.mp hsplit
    rw [List.forall_mem_cons, ← ih hrest]
    constructor
    · rintro ⟨hreads, hdecodes⟩
      cases hreads with
      | cons hfirst' hread hreads =>
        obtain ⟨-, rfl⟩ := hfirst.unique hfirst' rfl
        refine ⟨(readObject_coincides hfirst).mp ⟨_, hread⟩, hreads, ?_⟩
        generalize hbytes : s.bytes = b at hdecodes
        cases hdecodes with
        | cons hdecode hdecodes =>
          obtain rfl := List.append_cancel_left (hfirst.1.symm.trans hbytes)
          exact hdecodes
    · rintro ⟨hcoincides, hreads, hdecodes⟩
      obtain ⟨raw, hread⟩ := (readObject_coincides hfirst).mpr hcoincides
      refine ⟨.cons hfirst hread hreads, ?_⟩
      rw [hfirst.1]
      exact .cons (decode_coincides.mpr hcoincides) hdecodes

/-- The end of a group: an object without a payload, and with a status. -/
def endOfGroup : DraftObject where
  objectIdDelta := ⟨0, [0], by decide⟩
  propertiesLength := ⟨0, [0], by decide⟩
  properties := []
  payloadLength := ⟨0, [0], by decide⟩
  status := ⟨3, [3], by decide⟩
  payload := []
  propertiesFit := rfl
  payloadFit := rfl

theorem not_readsExactly_endOfGroup : ¬∀ (hasProperties : Bool) (os : List DraftObject)
    (s t : ByteStream), s.Splits (os.flatMap (serialize hasProperties)) t →
      ReadsExactly hasProperties s os t ∧ DecodesExactly hasProperties s.bytes os t.bytes := by
  intro h
  obtain ⟨hreads, -⟩ := h false [endOfGroup] { bytes := [0, 0, 3], ending := .finished }
    { bytes := [], ending := .finished } ⟨rfl, rfl⟩
  cases hreads with
  | cons hsplit hread hrest =>
    have hfirst : (readObject false).Returns { bytes := [0, 0, 3], ending := .finished }
        (some (⟨0, 0⟩, [], [0, 0])) { bytes := [3], ending := .finished } := by decide
    obtain ⟨-, rfl⟩ := hread.unique hfirst
    cases hsplit.1

/-- An object with a payload, in a stream without properties. -/
def threeBytes : DraftObject where
  objectIdDelta := ⟨0, [0], by decide⟩
  propertiesLength := ⟨0, [0], by decide⟩
  properties := []
  payloadLength := ⟨3, [3], by decide⟩
  status := ⟨0, [0], by decide⟩
  payload := [97, 98, 99]
  propertiesFit := rfl
  payloadFit := rfl

theorem readsExactly_twoObjects :
    ReadsExactly false { bytes := [0, 3, 97, 98, 99, 0, 3, 97, 98, 99], ending := .finished }
      [threeBytes, threeBytes] { bytes := [], ending := .finished } ∧
    DecodesExactly false [0, 3, 97, 98, 99, 0, 3, 97, 98, 99] [threeBytes, threeBytes] [] := by
  have hsplit : ByteStream.Splits
      { bytes := [0, 3, 97, 98, 99, 0, 3, 97, 98, 99], ending := .finished }
      ([threeBytes, threeBytes].flatMap (serialize false)) { bytes := [], ending := .finished } :=
    ⟨rfl, rfl⟩
  exact (readsExactly_iff hsplit).mpr (by simp [Coincides, threeBytes])

end DraftObject

end Moqt.Wire
