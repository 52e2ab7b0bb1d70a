import Moqt.Web.StreamReader
import Moqt.Wire.Object

/-! Data streams between the relay and the browser client, whose readers are written twice.  They
read the same fields of a header; but the browser takes a header of any type, skips no properties,
and does not take a stream that is cut for one that has ended. -/

namespace Moqt.Web

open Library

/-! ### Headers -/

structure SubgroupHeader where
  trackAlias : Nat
  groupId : Nat
  hasProperties : Bool
  endOfGroup : Bool
  subgroupId : Option Nat
  publisherPriority : Option Nat
deriving DecidableEq, Repr

/-- `value & mask`, in 32-bit arithmetic.  No mask has the bit of the sign. -/
def bitAnd (value mask : Nat) : Nat := value % 2 ^ 32 &&& mask

/-- `(streamType >> 1) & 0x03` -/
def subgroupIdMode (streamType : Nat) : Nat := (streamType % 2 ^ 32) >>> 1 &&& 0x03

/-- The subgroup ID, if the type says that it is there, and the position behind it. -/
def decodeSubgroupId (streamType : Nat) (buf : Bytes) (pos : Nat) : Outcome (Option Nat × Nat) :=
  if subgroupIdMode streamType = 0x02 then do
    let (value, bytesRead) ← decodeVarint buf pos
    return (some value, pos + bytesRead)
  else pure (none, pos)

/-- The priority, if the type says that it is there, and the position behind it. -/
def decodePriority (streamType : Nat) (buf : Bytes) (pos : Nat) : Outcome (Option Nat × Nat) :=
  if bitAnd streamType 0x20 = 0 then do
    Outcome.ensure (pos < buf.length) "subgroup_header: publisher priority truncated"
    return (some (byteAt buf pos), pos + 1)
  else pure (none, pos)

def decodeSubgroupHeader (buf : Bytes) (offset : Nat) : Outcome (SubgroupHeader × Nat) := do
  let pos := offset
  let (streamType, r1) ← decodeVarint buf pos
  let pos := pos + r1
  let hasProperties := bitAnd streamType 0x01 != 0
  let endOfGroup := bitAnd streamType 0x08 != 0
  let (trackAlias, r2) ← decodeVarint buf pos
  let pos := pos + r2
  let (groupId, r3) ← decodeVarint buf pos
  let pos := pos + r3
  let (subgroupId, pos) ← decodeSubgroupId streamType buf pos
  let (publisherPriority, pos) ← decodePriority streamType buf pos
  return ({ trackAlias, groupId, hasProperties, endOfGroup, subgroupId, publisherPriority },
    pos - offset)

/-- The header that `nextEvent` reads from a unidirectional stream. -/
def readSubgroupHeader : ChunkReader SubgroupHeader := do
  let (streamType, typeBytes) ← StreamReader.readVarint
  let (_, aliasBytes) ← StreamReader.readVarint
  let (_, groupBytes) ← StreamReader.readVarint
  let sidBytes ← ChunkReader.optional (subgroupIdMode streamType = 0x02)
    (Prod.snd <$> StreamReader.readVarint)
  let priority ← ChunkReader.optional (bitAnd streamType 0x20 = 0) (StreamReader.readExact 1)
  let raw := typeBytes ++ aliasBytes ++ groupBytes ++ sidBytes ++ priority
  let (header, _) ← ChunkReader.ofOutcome (decodeSubgroupHeader raw 0)
  return header

/-- `SubgroupReader.readObject`, whose `null` is `none`. -/
def readObject : ChunkReader (Option Bytes) := do
  match ← StreamReader.tryReadVarint with
  | none => return none
  | some _ =>
    let (payloadLength, _) ← StreamReader.readVarint
    if payloadLength = 0 then return some []
    else some <$> StreamReader.readExact payloadLength

/-- The type byte of a header, with the bits that its fields set. -/
def typeByte (h : SubgroupHeader) : Nat :=
  let typeByte := 0x10
  let typeByte := if h.hasProperties then typeByte ||| 0x01 else typeByte
  let typeByte := if h.subgroupId.isSome then typeByte ||| 0x04 else typeByte
  let typeByte := if h.endOfGroup then typeByte ||| 0x08 else typeByte
  if h.publisherPriority.isNone then typeByte ||| 0x20 else typeByte

def encodeSubgroupHeader (h : SubgroupHeader) : Bytes :=
  encodeVarint (typeByte h) ++ encodeVarint h.trackAlias ++ encodeVarint h.groupId ++
    (h.subgroupId.elim [] fun id => encodeVarint id) ++
    (h.publisherPriority.map UInt8.ofNat).toList

structure ObjectHeader where
  objectIdDelta : Nat
  payloadLength : Nat
deriving DecidableEq, Repr

def encodeObjectHeader (h : ObjectHeader) : Bytes :=
  encodeVarint h.objectIdDelta ++ encodeVarint h.payloadLength

/-- What the browser takes for a header: words of any type, with the fields that its bits ask
for. -/
inductive IsHeader : SubgroupHeader → Bytes → Prop
  | mk {typeBytes aliasBytes groupBytes : Bytes} {id : Option Bytes} {priority : Option UInt8}
      (typeField : IsCode typeBytes) (aliasField : IsCode aliasBytes)
      (groupField : IsCode groupBytes) (idField : ∀ w ∈ id, IsCode w)
      (idMode : id.isSome = decide (subgroupIdMode (numberOf typeBytes) = 0x02))
      (priorityBit : priority.isSome = decide (bitAnd (numberOf typeBytes) 0x20 = 0)) :
    IsHeader
      { trackAlias := numberOf aliasBytes
        groupId := numberOf groupBytes
        hasProperties := bitAnd (numberOf typeBytes) 0x01 != 0
        endOfGroup := bitAnd (numberOf typeBytes) 0x08 != 0
        subgroupId := id.map numberOf
        publisherPriority := priority.map UInt8.toNat }
      (typeBytes ++ aliasBytes ++ groupBytes ++ id.getD [] ++ priority.toList)

theorem decodeSubgroupId_append {streamType : Nat} {id : Option Bytes} (before rest : Bytes)
    (hid : ∀ w ∈ id, IsCode w) (hmode : id.isSome = decide (subgroupIdMode streamType = 0x02)) :
    decodeSubgroupId streamType (before ++ (id.getD [] ++ rest)) before.length =
      .ok (id.map numberOf, before.length + (id.getD []).length) := by
  cases id with
  | some w =>
    rw [decodeSubgroupId, if_pos (of_decide_eq_true hmode.symm)]
    simp only [Option.getD_some, decodeVarint_code (hid w rfl)]
    rfl
  | none =>
    rw [decodeSubgroupId, if_neg (of_decide_eq_false hmode.symm)]
    rfl

theorem decodePriority_append {streamType : Nat} {priority : Option UInt8} (before : Bytes)
    (hbit : priority.isSome = decide (bitAnd streamType 0x20 = 0)) :
    decodePriority streamType (before ++ priority.toList) before.length =
      .ok (priority.map UInt8.toNat, before.length + priority.toList.length) := by
  cases priority with
  | some byte =>
    have hlt : before.length < (before ++ [byte]).length := by simp
    rw [decodePriority, if_pos (of_decide_eq_true hbit.symm), Option.toList_some, byteAt_append,
      decide_eq_true hlt]
    rfl
  | none =>
    rw [decodePriority, if_neg (of_decide_eq_false hbit.symm)]
    rfl

/-- The bytes that were read as a header are decoded as one. -/
theorem IsHeader.decode {header : SubgroupHeader} {raw : Bytes} (h : IsHeader header raw) :
    decodeSubgroupHeader raw 0 = .ok (header, raw.length) := by
  obtain @⟨w1, w2, w3, id, priority, h1, h2, h3, hid, hmode, hbit⟩ := h
  have htype := decodeVarint_code h1 [] (w2 ++ w3 ++ id.getD [] ++ priority.toList)
  have halias := decodeVarint_code h2 w1 (w3 ++ id.getD [] ++ priority.toList)
  have hgroup := decodeVarint_code h3 (w1 ++ w2) (id.getD [] ++ priority.toList)
  have hsubgroup := decodeSubgroupId_append (w1 ++ w2 ++ w3) priority.toList hid hmode
  have hpriority := decodePriority_append (w1 ++ w2 ++ w3 ++ id.getD []) hbit
  simp only [List.append_assoc, List.nil_append, List.length_nil, List.length_append,
    ← Nat.add_assoc] at htype halias hgroup hsubgroup hpriority
  simp only [decodeSubgroupHeader, ok_bind, ok_pure, Prod.exists, List.append_assoc, Nat.zero_add]
  refine ⟨_, _, htype, _, _, halias, _, _, hgroup, _, _, hsubgroup, _, _, hpriority, ?_⟩
  simp [Nat.add_assoc]

theorem optionalVarint_reads (present : Bool) :
    (ChunkReader.optional present (Prod.snd <$> StreamReader.readVarint)).Reads fun a w =>
      a = w ∧ ∃ id : Option Bytes, id.isSome = present ∧ (∀ c ∈ id, IsCode c) ∧ w = id.getD [] := by
  refine ((StreamReader.readVarint_reads.map Prod.snd).optional present).congr fun a w => ?_
  constructor
  · rintro (⟨rfl, _, ⟨hcode, rfl⟩, rfl⟩ | ⟨rfl, rfl, rfl⟩)
    · exact ⟨rfl, some w, rfl, by simpa using hcode, rfl⟩
    · exact ⟨rfl, none, rfl, by simp, rfl⟩
  · rintro ⟨rfl, _ | c, rfl, hcode, rfl⟩
    · exact .inr ⟨rfl, rfl, rfl⟩
    · exact .inl ⟨rfl, _, ⟨hcode _ rfl, rfl⟩, rfl⟩

theorem optionalByte_reads (present : Bool) :
    (ChunkReader.optional present (StreamReader.readExact 1)).Reads fun a w =>
      a = w ∧ ∃ byte : Option UInt8, byte.isSome = present ∧ w = byte.toList := by
  refine ((StreamReader.readExact_reads 1).optional present).congr fun a w => ?_
  constructor
  · rintro (⟨rfl, rfl, hone⟩ | ⟨rfl, rfl, rfl⟩)
    · obtain ⟨byte, rfl⟩ := List.length_eq_one_iff.mp hone
      exact ⟨rfl, some byte, rfl, rfl⟩
    · exact ⟨rfl, none, rfl, rfl⟩
  · rintro ⟨rfl, _ | byte, rfl, rfl⟩
    · exact .inr ⟨rfl, rfl, rfl⟩
    · exact .inl ⟨rfl, rfl, rfl⟩

/-- The browser takes a header from the front of the stream. -/
theorem readSubgroupHeader_reads : readSubgroupHeader.Reads IsHeader := by
  refine (StreamReader.readVarint_reads.bind fun a => StreamReader.readVarint_reads.bind fun b =>
    StreamReader.readVarint_reads.bind fun c => (optionalVarint_reads _).bind fun id =>
    (optionalByte_reads _).bind fun priority =>
    (ChunkReader.Reads.ofOutcome _).bind fun d => .pure _).congr fun header w => ?_
  constructor
  · rintro ⟨_, w1, _, ⟨h1, rfl⟩, ⟨_, w2, _, ⟨h2, rfl⟩, ⟨_, w3, _, ⟨h3, rfl⟩, ⟨idBytes, _, _,
      ⟨rfl, id, hmode, hid, rfl⟩, ⟨priorityBytes, _, _, ⟨rfl, priority, hbit, rfl⟩, ⟨_, _, _,
      ⟨hdecode, rfl⟩, ⟨rfl, rfl⟩, rfl⟩, rfl⟩, rfl⟩, rfl⟩, rfl⟩, rfl⟩
    have hheader := IsHeader.mk h1 h2 h3 hid hmode hbit
    obtain rfl := Outcome.ok.inj (hdecode.symm.trans hheader.decode)
    simpa using hheader
  · intro hheader
    have hdecode := hheader.decode
    obtain @⟨w1, w2, w3, id, priority, h1, h2, h3, hid, hmode, hbit⟩ := hheader
    exact ⟨_, w1, _, ⟨h1, rfl⟩, ⟨_, w2, _, ⟨h2, rfl⟩, ⟨_, w3, _, ⟨h3, rfl⟩, ⟨_, id.getD [], _,
      ⟨rfl, id, hmode, hid, rfl⟩, ⟨_, priority.toList, _, ⟨rfl, priority, hbit, rfl⟩, ⟨_, [], [],
      ⟨hdecode, rfl⟩, ⟨rfl, rfl⟩, rfl⟩, rfl⟩, rfl⟩, rfl⟩, rfl⟩, by simp⟩

/-! ### Objects -/

/-- What the browser takes for an object, whether or not the stream has properties. -/
def IsObject (payload w : Bytes) : Prop :=
  ∃ delta len, IsCode delta ∧ IsCode len ∧ numberOf len = payload.length ∧
    w = delta ++ (len ++ payload)

/-- What the relay takes for an object: the properties are in front of the payload. -/
def IsRelayObject (hasProperties : Bool) (payload w : Bytes) : Prop :=
  ∃ header raw, Wire.HeaderFormat hasProperties header raw ∧
    payload.length = header.payloadLength.toNat ∧ w = raw ++ payload

/-- A call of `readObject`. -/
def NextObject (r : Chunked) (payload : Option Bytes) (r' : Chunked) : Prop :=
  readObject r = .ok (payload, r')

/-- A call of `read_object` in the relay. -/
def NextRelayObject (hasProperties : Bool) (s : ByteStream) (payload : Option Bytes)
    (t : ByteStream) : Prop :=
  ∃ o, (Wire.readObject hasProperties).Returns s o t ∧ o.map (fun o => o.2.1) = payload

theorem readPayload_reads (n : Nat) :
    (if n = 0 then pure (some []) else some <$> StreamReader.readExact n :
      ChunkReader (Option Bytes)).Reads fun o w => o = some w ∧ w.length = n := by
  refine (ChunkReader.Reads.ite (.pure _) ((StreamReader.readExact_reads n).map some)).congr
    fun o w => ?_
  constructor
  · rintro (⟨rfl, rfl, rfl⟩ | ⟨-, _, ⟨rfl, hlength⟩, rfl⟩)
    · exact ⟨rfl, rfl⟩
    · exact ⟨rfl, hlength⟩
  · rintro ⟨rfl, rfl⟩
    cases w with
    | nil => exact .inl ⟨rfl, rfl, rfl⟩
    | cons byte w => exact .inr ⟨by simp, _, ⟨rfl, rfl⟩, rfl⟩

theorem delimited_isObject : Delimited IsObject := by
  rintro payload payload' _ _ r r' ⟨delta, len, hdelta, hlen, hlength, rfl⟩
    ⟨delta', len', hdelta', hlen', hlength', rfl⟩ heq
  simp only [List.append_assoc] at heq
  obtain ⟨rfl, htail⟩ := hdelta.append_inj hdelta' heq
  obtain ⟨rfl, hpayload⟩ := hlen.append_inj hlen' htail
  obtain ⟨rfl, -⟩ := List.append_inj hpayload (hlength.symm.trans hlength')
  exact ⟨rfl, rfl⟩

theorem delimited_isRelayObject (hasProperties : Bool) :
    Delimited (IsRelayObject hasProperties) := by
  rintro payload payload' _ _ r r' ⟨⟨delta, len⟩, _, ⟨hdelta, hlen, hproperties⟩, hlength, rfl⟩
    ⟨⟨delta', len'⟩, _, ⟨hdelta', hlen', hproperties'⟩, hlength', rfl⟩ heq
  simp only [List.append_assoc] at heq
  obtain ⟨rfl, rfl, htail⟩ := hdelta.append_inj hdelta' heq
  obtain ⟨rfl, rfl, hbody⟩ := hlen.append_inj hlen' htail
  have hpayloads : payload.length = payload'.length := hlength.trans hlength'.symm
  cases hasProperties with
  | false =>
    obtain rfl := hproperties
    obtain rfl := hproperties'
    rw [List.nil_append, List.nil_append] at hbody
    obtain ⟨rfl, -⟩ := List.append_inj hbody hpayloads
    exact ⟨rfl, rfl⟩
  | true =>
    obtain ⟨props, n, w, hn, hprops, rfl⟩ := hproperties
    obtain ⟨props', n', w', hn', hprops', rfl⟩ := hproperties'
    simp only [List.append_assoc] at hbody
    obtain ⟨rfl, rfl, hblock⟩ := hn.append_inj hn' hbody
    obtain ⟨rfl, hpayload⟩ := List.append_inj hblock (hprops.symm.trans hprops')
    obtain ⟨rfl, -⟩ := List.append_inj hpayload hpayloads
    exact ⟨rfl, rfl⟩

theorem IsObject.ne_nil {payload w : Bytes} (h : IsObject payload w) (r : Bytes) :
    w ++ r ≠ [] := by
  obtain ⟨delta, len, hdelta, -, -, rfl⟩ := h
  obtain ⟨first, tail, rfl, -⟩ := hdelta
  simp

theorem IsRelayObject.not_cut {hasProperties : Bool} {payload w : Bytes}
    (h : IsRelayObject hasProperties payload w) (r : Bytes) :
    Wire.cutVarint (w ++ r) = false := by
  obtain ⟨header, _, ⟨hdelta, -, -⟩, -, rfl⟩ := h
  simp only [List.append_assoc]
  exact Wire.not_cutVarint_of_isVarint hdelta _

/-- A call that finds a first varint takes an object from the front of the stream. -/
theorem nextObject_some {r r' : Chunked} {payload : Bytes} :
    NextObject r (some payload) r' ↔ ∃ a mid, StreamReader.readVarint r = .ok (a, mid) ∧
      ∃ b mid', StreamReader.readVarint mid = .ok (b, mid') ∧
        (if b.1 = 0 then pure (some []) else some <$> StreamReader.readExact b.1 :
          ChunkReader (Option Bytes)) mid' = .ok (some payload, r') := by
  simp only [NextObject, readObject, ChunkReader.bind_ok]
  constructor
  · rintro ⟨_ | a, mid, hfirst, h⟩
    · simp at h
    · obtain ⟨b, mid', hlen, h⟩ := ChunkReader.bind_ok.mp h
      exact ⟨a, mid, StreamReader.tryReadVarint_some.mp hfirst, b, mid', hlen, h⟩
  · rintro ⟨a, mid, hfirst, b, mid', hlen, h⟩
    exact ⟨some a, mid, StreamReader.tryReadVarint_some.mpr hfirst,
      ChunkReader.bind_ok.mpr ⟨b, mid', hlen, h⟩⟩

theorem nextObject_none {r : Chunked} :
    (∃ r', NextObject r none r') ↔ r.bytes = [] ∧ r.ending = .finished := by
  rw [← StreamReader.tryReadVarint_none]
  simp only [NextObject, readObject, ChunkReader.bind_ok]
  constructor
  · rintro ⟨r', _ | a, mid, hfirst, h⟩
    · exact ⟨mid, hfirst⟩
    · obtain ⟨b, mid', hlen, h⟩ := ChunkReader.bind_ok.mp h
      obtain ⟨_, ⟨hsome, -⟩, -⟩ := (readPayload_reads b.1).sound h
      cases hsome
  · rintro ⟨r', hfirst⟩
    exact ⟨r', none, r', hfirst, ChunkReader.pure_ok.mpr ⟨rfl, rfl⟩⟩

theorem nextObject_sound {r r' : Chunked} {payload : Bytes} (h : NextObject r (some payload) r') :
    ∃ w, IsObject payload w ∧ r.bytes = w ++ r'.bytes ∧ r.ending = r'.ending := by
  obtain ⟨_, mid, hfirst, _, mid', hlen, h⟩ := nextObject_some.mp h
  obtain ⟨delta, ⟨hdelta, rfl⟩, hsplit⟩ := StreamReader.readVarint_reads.sound hfirst
  obtain ⟨len, ⟨hcode, rfl⟩, hsplit'⟩ := StreamReader.readVarint_reads.sound hlen
  obtain ⟨w, ⟨heq, hlength⟩, hsplit''⟩ := (readPayload_reads _).sound h
  obtain rfl := Option.some.inj heq
  have hsplits := (hsplit.trans hsplit').trans hsplit''
  rw [List.append_assoc] at hsplits
  exact ⟨_, ⟨delta, len, hdelta, hcode, hlength.symm, rfl⟩, hsplits⟩

theorem nextObject_complete {r : Chunked} {payload w rest : Bytes} (h : IsObject payload w)
    (hbytes : r.bytes = w ++ rest) :
    ∃ r', NextObject r (some payload) r' ∧ r'.bytes = rest ∧ r.ending = r'.ending := by
  obtain ⟨delta, len, hdelta, hcode, hlength, rfl⟩ := h
  simp only [List.append_assoc] at hbytes
  obtain ⟨mid, hfirst, hsplit⟩ :=
    StreamReader.readVarint_reads.complete ⟨hdelta, rfl⟩ hbytes
  have hmid := List.append_cancel_left (hsplit.1.symm.trans hbytes)
  obtain ⟨mid', hlen, hsplit'⟩ := StreamReader.readVarint_reads.complete ⟨hcode, rfl⟩ hmid
  have hmid' := List.append_cancel_left (hsplit'.1.symm.trans hmid)
  obtain ⟨r', h, hsplit''⟩ := (readPayload_reads (numberOf len)).complete ⟨rfl, hlength.symm⟩ hmid'
  exact ⟨r', nextObject_some.mpr ⟨_, mid, hfirst, _, mid', hlen, h⟩,
    List.append_cancel_left (hsplit''.1.symm.trans hmid'),
    hsplit.2.trans (hsplit'.2.trans hsplit''.2)⟩

/-- The browser reads objects up to the end of the stream. -/
theorem collects_objects_iff {r : Chunked} {payloads : List Bytes} :
    Collects NextObject r payloads ↔
      r.ending = .finished ∧ Items IsObject payloads r.bytes [] := by
  rw [collects_iff Chunked.bytes Chunked.ending IsObject
    (fun b ending => b = [] ∧ ending = .finished) nextObject_sound nextObject_complete
    nextObject_none]
  constructor
  · rintro ⟨tail, hitems, rfl, hending⟩
    exact ⟨hending, hitems⟩
  · rintro ⟨hending, hitems⟩
    exact ⟨[], hitems, rfl, hending⟩

/-- The relay reads objects up to a varint that is not there as a whole. -/
theorem collects_relayObjects_iff {hasProperties : Bool} {s : ByteStream} {payloads : List Bytes} :
    Collects (NextRelayObject hasProperties) s payloads ↔
      ∃ tail, Items (IsRelayObject hasProperties) payloads s.bytes tail ∧
        Wire.cutVarint tail = true := by
  refine collects_iff ByteStream.bytes ByteStream.ending (IsRelayObject hasProperties)
    (fun b _ => Wire.cutVarint b = true) ?_ ?_ ?_
  · rintro s t payload ⟨_ | ⟨header, _, raw⟩, hreturns, heq⟩
    · cases heq
    · obtain rfl := Option.some.inj heq
      obtain ⟨hformat, hlen, hsplit⟩ := Wire.returns_readObject.mp hreturns
      exact ⟨_, ⟨header, raw, hformat, hlen, rfl⟩, hsplit⟩
  · rintro s payload _ rest ⟨header, raw, hformat, hlen, rfl⟩ hbytes
    obtain ⟨t, hsplit, rfl⟩ := ByteStream.exists_splits hbytes
    exact ⟨t, ⟨_, Wire.returns_readObject.mpr ⟨hformat, hlen, hsplit⟩, rfl⟩, rfl, hsplit.2⟩
  · intro s
    refine Iff.trans ?_ (@Wire.returns_readObject_none hasProperties s)
    constructor
    · rintro ⟨t, _ | o, hreturns, heq⟩
      · exact ⟨t, hreturns⟩
      · cases heq
    · rintro ⟨t, hreturns⟩
      exact ⟨t, none, hreturns, rfl⟩

/-! ### Agreement -/

/-- The browser's form of a header of the relay. -/
def SubgroupHeader.ofRelay (header : Wire.SubgroupHeader) : SubgroupHeader where
  trackAlias := header.trackAlias.toNat
  groupId := header.groupId.toNat
  hasProperties := header.hasProperties
  endOfGroup := header.endOfGroup
  subgroupId := header.subgroupId.map UInt64.toNat
  publisherPriority := header.publisherPriority.map UInt8.toNat

/-- The browser reads the header and the payloads, and then the end of the stream. -/
def Accepts (r : Chunked) (header : SubgroupHeader) (payloads : List Bytes) : Prop :=
  ∃ r', readSubgroupHeader r = .ok (header, r') ∧ Collects NextObject r' payloads

/-- The relay does. -/
def RelayAccepts (s : ByteStream) (header : SubgroupHeader) (payloads : List Bytes) : Prop :=
  ∃ h raw t, Wire.readSubgroupHeader.Returns s (h, raw) t ∧ .ofRelay h = header ∧
    Collects (NextRelayObject h.hasProperties) t payloads

/-- The two readers accept the stream with the same header and the same payloads, or none of them
does. -/
def StreamAgrees (chunks : List Bytes) (s : ByteStream) : Prop :=
  ∀ header payloads, Accepts { chunks, ending := s.ending } header payloads ↔
    RelayAccepts s header payloads

/-- A header of the type, field by field, whether or not the relay has a use for the type. -/
inductive HeaderLayout (streamType : UInt64) (header : Wire.SubgroupHeader) : Bytes → Prop
  | mk {typeBytes aliasBytes groupBytes idBytes : Bytes}
      (properties : header.hasProperties = (streamType &&& 0x01 != 0))
      (endOfGroup : header.endOfGroup = (streamType &&& 0x08 != 0))
      (subgroupId : header.subgroupId.isSome =
        (Wire.SubgroupHeader.subgroupIdMode streamType == 0x02))
      (priority : header.publisherPriority.isSome = (streamType &&& 0x20 == 0))
      (typeField : Wire.IsVarint streamType typeBytes)
      (aliasField : Wire.IsVarint header.trackAlias aliasBytes)
      (groupField : Wire.IsVarint header.groupId groupBytes)
      (idField : Wire.SubgroupHeader.IsField Wire.IsVarint header.subgroupId idBytes) :
    HeaderLayout streamType header
      (typeBytes ++ aliasBytes ++ groupBytes ++ idBytes ++ header.publisherPriority.toList)

theorem format_iff {streamType : UInt64} {header : Wire.SubgroupHeader} {w : Bytes} :
    Wire.SubgroupHeader.Format Wire.IsVarint streamType header w ↔
      Wire.SubgroupHeader.validType streamType = true ∧ HeaderLayout streamType header w := by
  constructor
  · rintro ⟨htype, h1, h2, h3, h4⟩
    exact ⟨htype.valid, .mk htype.properties htype.endOfGroup htype.subgroupId htype.priority
      h1 h2 h3 h4⟩
  · rintro ⟨hvalid, hproperties, hend, hid, hpriority, h1, h2, h3, h4⟩
    exact .mk ⟨hvalid, hproperties, hend, hid, hpriority⟩ h1 h2 h3 h4

/-- The varints of a header are short, as far as they are there. -/
def HeaderShort (b : Bytes) : Prop :=
  StartsShort b ∧ ∀ streamType w1 r1, ShortVarint streamType w1 → b = w1 ++ r1 →
    StartsShort r1 ∧ ∀ trackAlias w2 r2, ShortVarint trackAlias w2 → r1 = w2 ++ r2 →
      StartsShort r2 ∧ ∀ groupId w3 r3, ShortVarint groupId w3 → r2 = w3 ++ r3 →
        subgroupIdMode streamType = 0x02 → StartsShort r3

theorem bitAnd_toNat (v mask : UInt64) (h : mask.toNat < 2 ^ 32) :
    bitAnd v.toNat mask.toNat = (v &&& mask).toNat := by
  rw [bitAnd, ← Nat.and_two_pow_sub_one_eq_mod, Nat.and_assoc, UInt64.toNat_and,
    Nat.and_comm (2 ^ 32 - 1), Nat.and_two_pow_sub_one_eq_mod, Nat.mod_eq_of_lt h]

theorem subgroupIdMode_toNat (v : UInt64) :
    subgroupIdMode v.toNat = (Wire.SubgroupHeader.subgroupIdMode v).toNat := by
  rw [subgroupIdMode, ← Nat.and_two_pow_sub_one_eq_mod, Nat.shiftRight_and_distrib, Nat.and_assoc,
    Wire.SubgroupHeader.subgroupIdMode, UInt64.toNat_and, UInt64.toNat_shiftRight]
  rfl

/-- The bits of a type are the same on both sides. -/
theorem bits_eq (v : UInt64) :
    (bitAnd v.toNat 0x01 != 0) = (v &&& 0x01 != 0) ∧
      (bitAnd v.toNat 0x08 != 0) = (v &&& 0x08 != 0) ∧
      decide (bitAnd v.toNat 0x20 = 0) = (v &&& 0x20 == 0) ∧
      decide (subgroupIdMode v.toNat = 0x02) =
        (Wire.SubgroupHeader.subgroupIdMode v == 0x02) := by
  have hbit (mask : UInt64) (h : mask.toNat < 2 ^ 32) :
      bitAnd v.toNat mask.toNat = 0 ↔ v &&& mask = 0 := by
    rw [bitAnd_toNat v mask h]
    exact UInt64.toNat_inj (b := 0)
  have hmode : subgroupIdMode v.toNat = 0x02 ↔ Wire.SubgroupHeader.subgroupIdMode v = 0x02 := by
    rw [subgroupIdMode_toNat]
    exact UInt64.toNat_inj (b := 0x02)
  have h01 : bitAnd v.toNat 0x01 = 0 ↔ _ := hbit 0x01 (by decide)
  have h08 : bitAnd v.toNat 0x08 = 0 ↔ _ := hbit 0x08 (by decide)
  have h20 : bitAnd v.toNat 0x20 = 0 ↔ _ := hbit 0x20 (by decide)
  refine ⟨?_, ?_, ?_, ?_⟩
  · rw [Bool.eq_iff_iff, bne_iff_ne, bne_iff_ne, ne_eq, ne_eq, h01]
  · rw [Bool.eq_iff_iff, bne_iff_ne, bne_iff_ne, ne_eq, ne_eq, h08]
  · rw [Bool.eq_iff_iff, decide_eq_true_iff, beq_iff_eq, h20]
  · rw [Bool.eq_iff_iff, decide_eq_true_iff, beq_iff_eq, hmode]

/-- Both sides read the same fields from a header whose varints are short. -/
theorem isHeader_iff {w rest : Bytes} (h : HeaderShort (w ++ rest)) {header : SubgroupHeader} :
    IsHeader header w ↔
      ∃ streamType relayed, HeaderLayout streamType relayed w ∧ .ofRelay relayed = header := by
  constructor
  · intro hheader
    obtain @⟨w1, w2, w3, id, priority, h1, h2, h3, hid, hmode, hbit⟩ := hheader
    simp only [List.append_assoc] at h
    obtain ⟨v1, hv1, hlen1, hnum1⟩ := h.1.of_isCode h1
    obtain ⟨hstarts2, h⟩ := h.2 _ w1 _ ⟨v1, hv1, hlen1, hnum1⟩ rfl
    obtain ⟨v2, hv2, hlen2, hnum2⟩ := hstarts2.of_isCode h2
    obtain ⟨hstarts3, h⟩ := h _ w2 _ ⟨v2, hv2, hlen2, hnum2⟩ rfl
    obtain ⟨v3, hv3, hlen3, hnum3⟩ := hstarts3.of_isCode h3
    have hstarts4 := h _ w3 _ ⟨v3, hv3, hlen3, hnum3⟩ rfl
    obtain ⟨hb01, hb08, hb20, hbmode⟩ := bits_eq v1
    rw [← hnum1] at hmode hbit hstarts4 ⊢
    rw [← hnum2, ← hnum3, hb01, hb08]
    rw [hb20] at hbit
    cases id with
    | some w4 =>
      have h4 := hid w4 rfl
      obtain ⟨v4, hv4, hlen4, hnum4⟩ : ShortVarint (numberOf w4) w4 :=
        (hstarts4 (of_decide_eq_true hmode.symm)).of_isCode h4
      refine ⟨v1, ⟨v2, v3, v1 &&& 0x01 != 0, v1 &&& 0x08 != 0, some v4, priority⟩,
        .mk rfl rfl (hmode.trans hbmode) hbit hv1 hv2 hv3 hv4, ?_⟩
      rw [Option.map_some, ← hnum4]
      rfl
    | none =>
      exact ⟨v1, ⟨v2, v3, v1 &&& 0x01 != 0, v1 &&& 0x08 != 0, none, priority⟩,
        .mk rfl rfl (hmode.trans hbmode) hbit hv1 hv2 hv3 rfl, rfl⟩
  · rintro ⟨v1, ⟨v2, v3, _, _, id, priority⟩, hlayout, rfl⟩
    obtain @⟨w1, w2, w3, w4, hproperties, hend, hmode, hbit, hv1, hv2, hv3, hid⟩ := hlayout
    obtain rfl := hproperties
    obtain rfl := hend
    simp only [List.append_assoc] at h
    have hshort1 := h.1.of_isVarint hv1
    obtain ⟨hstarts2, h⟩ := h.2 _ w1 _ hshort1 rfl
    have hshort2 := hstarts2.of_isVarint hv2
    obtain ⟨hstarts3, h⟩ := h _ w2 _ hshort2 rfl
    have hshort3 := hstarts3.of_isVarint hv3
    have hstarts4 := h _ w3 _ hshort3 rfl
    obtain ⟨hb01, hb08, hb20, hbmode⟩ := bits_eq v1
    rw [← hb20, ← hshort1.numberOf] at hbit
    cases id with
    | some v4 =>
      have hmode4 := of_decide_eq_true (hbmode.trans hmode.symm)
      have hshort4 := (hstarts4 hmode4).of_isVarint hid
      have hheader := @IsHeader.mk w1 w2 w3 (some w4) priority hshort1.isCode hshort2.isCode
        hshort3.isCode (by simpa using hshort4.isCode)
        (by rw [hshort1.numberOf, hbmode]; exact hmode) hbit
      rw [hshort1.numberOf, hshort2.numberOf, hshort3.numberOf, Option.map_some,
        hshort4.numberOf, hb01, hb08] at hheader
      exact hheader
    | none =>
      obtain rfl := hid
      have hheader := @IsHeader.mk w1 w2 w3 none priority hshort1.isCode hshort2.isCode
        hshort3.isCode (by simp) (by rw [hshort1.numberOf, hbmode]; exact hmode) hbit
      rw [hshort1.numberOf, hshort2.numberOf, hshort3.numberOf, hb01, hb08] at hheader
      exact hheader

theorem HeaderLayout.unique {t t' : UInt64} {h h' : Wire.SubgroupHeader} {w w' r r' : Bytes}
    (hlayout : HeaderLayout t h w) (hlayout' : HeaderLayout t' h' w') (heq : w ++ r = w' ++ r') :
    t = t' ∧ h = h' ∧ r = r' := by
  obtain ⟨v2, v3, _, _, id, priority⟩ := h
  obtain ⟨v2', v3', _, _, id', priority'⟩ := h'
  obtain ⟨hp, he, hmode, hbit, hv1, hv2, hv3, hid⟩ := hlayout
  obtain ⟨hp', he', hmode', hbit', hv1', hv2', hv3', hid'⟩ := hlayout'
  simp only [List.append_assoc] at heq
  obtain ⟨rfl, rfl, h2⟩ := hv1.append_inj hv1' heq
  obtain ⟨rfl, rfl, h3⟩ := hv2.append_inj hv2' h2
  obtain ⟨rfl, rfl, h4⟩ := hv3.append_inj hv3' h3
  obtain rfl := hp.trans hp'.symm
  obtain rfl := he.trans he'.symm
  have hsome := hmode.trans hmode'.symm
  have hpsome := hbit.trans hbit'.symm
  -- the optional fields are there on both sides or on none
  obtain ⟨rfl, h5⟩ : id = id' ∧ priority.toList ++ r = priority'.toList ++ r' := by
    cases id with
    | some v4 =>
      cases id' with
      | some v4' =>
        obtain ⟨rfl, rfl, h5⟩ := Wire.IsVarint.append_inj hid hid' h4
        exact ⟨rfl, h5⟩
      | none => cases hsome
    | none =>
      cases id' with
      | some v4' => cases hsome
      | none =>
        obtain rfl := hid
        obtain rfl := hid'
        exact ⟨rfl, h4⟩
  cases priority with
  | some byte =>
    cases priority' with
    | some byte' =>
      obtain ⟨rfl, rfl⟩ := List.cons.inj h5
      exact ⟨rfl, rfl, rfl⟩
    | none => cases hpsome
  | none =>
    cases priority' with
    | some byte' => cases hpsome
    | none => exact ⟨rfl, rfl, h5⟩

theorem accepts_iff {chunks : List Bytes} {s : ByteStream} (hchunks : chunks.flatten = s.bytes)
    {header : SubgroupHeader} {payloads : List Bytes} :
    Accepts { chunks, ending := s.ending } header payloads ↔ ∃ w rest, IsHeader header w ∧
      s.bytes = w ++ rest ∧ s.ending = .finished ∧ Items IsObject payloads rest [] := by
  have hbytes : Chunked.bytes { chunks, ending := s.ending } = s.bytes := hchunks
  constructor
  · rintro ⟨r', hread, hcollects⟩
    obtain ⟨w, hheader, hsplit⟩ := readSubgroupHeader_reads.sound hread
    obtain ⟨hending, hitems⟩ := collects_objects_iff.mp hcollects
    exact ⟨w, r'.bytes, hheader, hbytes.symm.trans hsplit.1, hsplit.2.trans hending, hitems⟩
  · rintro ⟨w, rest, hheader, heq, hending, hitems⟩
    obtain ⟨r', hread, hsplit⟩ :=
      readSubgroupHeader_reads.complete hheader (hbytes.trans heq)
    have hrest : r'.bytes = rest :=
      List.append_cancel_left (hsplit.1.symm.trans (hbytes.trans heq))
    refine ⟨r', hread, collects_objects_iff.mpr ⟨hsplit.2.symm.trans hending, ?_⟩⟩
    rw [hrest]
    exact hitems

theorem relayAccepts_iff {s : ByteStream} {header : SubgroupHeader} {payloads : List Bytes} :
    RelayAccepts s header payloads ↔ ∃ streamType relayed w rest,
      HeaderLayout streamType relayed w ∧ .ofRelay relayed = header ∧ s.bytes = w ++ rest ∧
        Wire.SubgroupHeader.validType streamType = true ∧
        ∃ tail, Items (IsRelayObject relayed.hasProperties) payloads rest tail ∧
          Wire.cutVarint tail = true := by
  constructor
  · rintro ⟨relayed, raw, t, hreturns, hheader, hcollects⟩
    obtain ⟨⟨streamType, hformat⟩, hsplit⟩ := Wire.returns_readSubgroupHeader.mp hreturns
    obtain ⟨hvalid, hlayout⟩ := format_iff.mp hformat
    exact ⟨streamType, relayed, raw, t.bytes, hlayout, hheader, hsplit.1, hvalid,
      collects_relayObjects_iff.mp hcollects⟩
  · rintro ⟨streamType, relayed, w, rest, hlayout, hheader, hbytes, hvalid, hitems⟩
    obtain ⟨t, hsplit, rfl⟩ := ByteStream.exists_splits hbytes
    exact ⟨relayed, w, t, Wire.returns_readSubgroupHeader.mpr
      ⟨⟨streamType, format_iff.mpr ⟨hvalid, hlayout⟩⟩, hsplit⟩, hheader,
      collects_relayObjects_iff.mpr hitems⟩

/-- What the browser reads behind a header is what the relay reads behind it. -/
def RestAgrees (streamType : UInt64) (rest : Bytes) (ending : Ending) : Prop :=
  ∀ payloads, (ending = .finished ∧ Items IsObject payloads rest []) ↔
    Wire.SubgroupHeader.validType streamType = true ∧
      ∃ tail, Items (IsRelayObject (streamType &&& 0x01 != 0)) payloads rest tail ∧
        Wire.cutVarint tail = true

theorem streamAgrees_of_layout {chunks : List Bytes} {s : ByteStream}
    (hchunks : chunks.flatten = s.bytes) (hshort : HeaderShort s.bytes) {streamType : UInt64}
    {relayed : Wire.SubgroupHeader} {w rest : Bytes} (hlayout : HeaderLayout streamType relayed w)
    (hbytes : s.bytes = w ++ rest) :
    StreamAgrees chunks s ↔ RestAgrees streamType rest s.ending := by
  have hproperties : relayed.hasProperties = (streamType &&& 0x01 != 0) := by
    cases hlayout
    assumption
  have haccepts (header : SubgroupHeader) (payloads : List Bytes) :
      Accepts { chunks, ending := s.ending } header payloads ↔ .ofRelay relayed = header ∧
        s.ending = .finished ∧ Items IsObject payloads rest [] := by
    rw [accepts_iff hchunks]
    constructor
    · rintro ⟨w', rest', hheader, hbytes', hending, hitems⟩
      obtain ⟨t', relayed', hlayout', rfl⟩ := (isHeader_iff (hbytes' ▸ hshort)).mp hheader
      obtain ⟨rfl, rfl, rfl⟩ := hlayout.unique hlayout' (hbytes.symm.trans hbytes')
      exact ⟨rfl, hending, hitems⟩
    · rintro ⟨rfl, hending, hitems⟩
      exact ⟨w, rest, (isHeader_iff (hbytes ▸ hshort)).mpr ⟨streamType, relayed, hlayout, rfl⟩,
        hbytes, hending, hitems⟩
  have hrelay (header : SubgroupHeader) (payloads : List Bytes) :
      RelayAccepts s header payloads ↔ .ofRelay relayed = header ∧
        Wire.SubgroupHeader.validType streamType = true ∧
        ∃ tail, Items (IsRelayObject (streamType &&& 0x01 != 0)) payloads rest tail ∧
          Wire.cutVarint tail = true := by
    rw [relayAccepts_iff, ← hproperties]
    constructor
    · rintro ⟨t', relayed', w', rest', hlayout', rfl, hbytes', hvalid, hitems⟩
      obtain ⟨rfl, rfl, rfl⟩ := hlayout.unique hlayout' (hbytes.symm.trans hbytes')
      exact ⟨rfl, hvalid, hitems⟩
    · rintro ⟨rfl, hvalid, hitems⟩
      exact ⟨streamType, relayed, w, rest, hlayout, rfl, hbytes, hvalid, hitems⟩
  simp only [StreamAgrees, haccepts, hrelay]
  constructor
  · intro h payloads
    simpa using h (.ofRelay relayed) payloads
  · intro h header payloads
    rw [h payloads]

/-- The varints of the objects of a stream without properties are short, as far as they are
there. -/
def ObjectsShort (rest : Bytes) : Prop :=
  ∀ payloads tail, Items (IsRelayObject false) payloads rest tail →
    StartsShort tail ∧ ∀ delta w r, ShortVarint delta w → tail = w ++ r → StartsShort r

/-- The varints of a stream are short.  Of a stream with properties this is asked of the header
only, and so it is of one that the relay refuses. -/
structure StreamShort (s : ByteStream) : Prop where
  header : HeaderShort s.bytes
  objects : ∀ streamType relayed w rest, HeaderLayout streamType relayed w →
    s.bytes = w ++ rest → Wire.SubgroupHeader.validType streamType = true →
      streamType &&& 0x01 = 0 → ObjectsShort rest

/-- The bytes behind a header are taken for the same objects. -/
structure RestFits (streamType : UInt64) (rest : Bytes) (ending : Ending) : Prop where
  /-- The type is not one of a data stream: the browser refuses what follows. -/
  invalid : Wire.SubgroupHeader.validType streamType = false → ending = .finished →
    ∀ payloads, ¬Items IsObject payloads rest []
  /-- There are no properties: the stream is not cut where the relay takes a cut for the end. -/
  plain : Wire.SubgroupHeader.validType streamType = true → streamType &&& 0x01 = 0 →
    ∀ payloads tail, Items (IsRelayObject false) payloads rest tail →
      Wire.cutVarint tail = true → tail = [] ∧ ending = .finished
  /-- There are properties: the bytes are objects with the same payloads with and without them, or
  are not objects in either way. -/
  properties : Wire.SubgroupHeader.validType streamType = true → streamType &&& 0x01 ≠ 0 →
    (ending = .finished ∧ ∃ payloads tail, Items (IsRelayObject true) payloads rest tail ∧
      Wire.cutVarint tail = true ∧ Items IsObject payloads rest []) ∨
    ((∀ payloads tail, Items (IsRelayObject true) payloads rest tail →
      Wire.cutVarint tail = false) ∧
      (ending = .finished → ∀ payloads, ¬Items IsObject payloads rest []))

/-- The bytes behind the header, if there is a whole one, are taken for the same objects. -/
def StreamFits (s : ByteStream) : Prop :=
  ∀ streamType relayed w rest, HeaderLayout streamType relayed w → s.bytes = w ++ rest →
    RestFits streamType rest s.ending

/-- An object without properties is the same on both sides if its varints are short. -/
theorem isObject_iff {payload w r : Bytes} (h : StartsShort (w ++ r))
    (h' : ∀ delta d behind, ShortVarint delta d → w ++ r = d ++ behind → StartsShort behind) :
    IsObject payload w ↔ IsRelayObject false payload w := by
  constructor
  · rintro ⟨d, l, hd, hl, hlength, rfl⟩
    simp only [List.append_assoc] at h h'
    obtain ⟨delta, hdelta, hdlen, hdnum⟩ := h.of_isCode hd
    obtain ⟨len, hlen, -, hlnum⟩ :=
      (h' _ d _ ⟨delta, hdelta, hdlen, hdnum⟩ rfl).of_isCode hl
    refine ⟨⟨delta, len⟩, d ++ l ++ [], .mk hdelta hlen rfl, ?_, by simp⟩
    rw [← hlength, ← hlnum]
  · rintro ⟨⟨delta, len⟩, _, ⟨hdelta, hlen, hproperties⟩, hlength, rfl⟩
    obtain rfl := hproperties
    simp only [List.append_assoc, List.nil_append] at h h'
    have hd := h.of_isVarint hdelta
    have hl := (h' _ _ _ hd rfl).of_isVarint hlen
    exact ⟨_, _, hd.isCode, hl.isCode, hl.numberOf.trans hlength.symm, by simp⟩

theorem ObjectsShort.items_iff {rest : Bytes} (h : ObjectsShort rest) {payloads : List Bytes}
    {tail : Bytes} :
    Items IsObject payloads rest tail ↔ Items (IsRelayObject false) payloads rest tail := by
  constructor
  · intro hitems
    refine hitems.imp fun front mid payload w r _ hfront hmid hobject => ?_
    obtain ⟨hstarts, hnext⟩ := h front mid hfront
    subst hmid
    exact (isObject_iff hstarts hnext).mp hobject
  · intro hitems
    refine hitems.imp fun front mid payload w r hfront _ hmid hobject => ?_
    obtain ⟨hstarts, hnext⟩ := h front mid hfront
    subst hmid
    exact (isObject_iff hstarts hnext).mpr hobject

/-- Whole objects and the end of the stream are found in one way only. -/
theorem objects_unique {rest : Bytes} {payloads payloads' : List Bytes}
    (h : Items IsObject payloads rest []) (h' : Items IsObject payloads' rest []) :
    payloads = payloads' := by
  refine Items.unique (fun tail => tail = []) delimited_isObject ?_ h rfl h' rfl
  intro payload w r hobject
  exact hobject.ne_nil r

theorem relayObjects_unique {hasProperties : Bool} {rest tail tail' : Bytes}
    {payloads payloads' : List Bytes} (h : Items (IsRelayObject hasProperties) payloads rest tail)
    (hcut : Wire.cutVarint tail = true)
    (h' : Items (IsRelayObject hasProperties) payloads' rest tail')
    (hcut' : Wire.cutVarint tail' = true) : payloads = payloads' := by
  refine Items.unique (fun tail => Wire.cutVarint tail = true)
    (delimited_isRelayObject hasProperties) ?_ h hcut h' hcut'
  intro payload w r hobject hstop
  rw [hobject.not_cut r] at hstop
  cases hstop

theorem restAgrees_iff {streamType : UInt64} {rest : Bytes} {ending : Ending}
    (hshort : Wire.SubgroupHeader.validType streamType = true → streamType &&& 0x01 = 0 →
      ObjectsShort rest) : RestAgrees streamType rest ending ↔ RestFits streamType rest ending := by
  cases hvalid : Wire.SubgroupHeader.validType streamType with
  | false =>
    simp only [RestAgrees, hvalid, Bool.false_eq_true, false_and, iff_false, not_and]
    constructor
    · intro h
      exact ⟨fun _ hending payloads => h payloads hending, by simp [hvalid], by simp [hvalid]⟩
    · intro h payloads hending
      exact h.invalid hvalid hending payloads
  | true =>
    simp only [RestAgrees, hvalid, true_and]
    by_cases hbit : streamType &&& 0x01 = 0
    · have hshort := hshort hvalid hbit
      simp only [hbit, bne_self_eq_false, hshort.items_iff]
      constructor
      · intro h
        refine ⟨by simp [hvalid], fun _ _ payloads tail hitems hcut => ?_,
          fun _ hset => absurd hbit hset⟩
        obtain ⟨hending, hall⟩ := (h payloads).mpr ⟨tail, hitems, hcut⟩
        exact ⟨Items.tail_unique (delimited_isRelayObject false) hitems hall, hending⟩
      · intro h payloads
        constructor
        · rintro ⟨-, hitems⟩
          exact ⟨[], hitems, rfl⟩
        · rintro ⟨tail, hitems, hcut⟩
          obtain ⟨rfl, hending⟩ := h.plain hvalid hbit payloads tail hitems hcut
          exact ⟨hending, hitems⟩
    · rw [bne_iff_ne.mpr hbit]
      constructor
      · intro h
        refine ⟨by simp [hvalid], fun _ hclear => absurd hclear hbit, fun _ _ => ?_⟩
        by_cases hsome : ∃ payloads tail, Items (IsRelayObject true) payloads rest tail ∧
            Wire.cutVarint tail = true
        · obtain ⟨payloads, tail, hitems, hcut⟩ := hsome
          obtain ⟨hending, hall⟩ := (h payloads).mpr ⟨tail, hitems, hcut⟩
          exact .inl ⟨hending, payloads, tail, hitems, hcut, hall⟩
        · refine .inr ⟨fun payloads tail hitems => ?_, fun hending payloads hall => ?_⟩
          · exact Bool.eq_false_iff.mpr fun hcut => hsome ⟨payloads, tail, hitems, hcut⟩
          · obtain ⟨tail, hitems, hcut⟩ := (h payloads).mp ⟨hending, hall⟩
            exact hsome ⟨payloads, tail, hitems, hcut⟩
      · intro h payloads
        rcases h.properties hvalid hbit with ⟨hending, payloads', tail', hitems', hcut', hall'⟩ |
          ⟨hnone, hnone'⟩
        · constructor
          · rintro ⟨-, hall⟩
            obtain rfl := objects_unique hall hall'
            exact ⟨tail', hitems', hcut'⟩
          · rintro ⟨tail, hitems, hcut⟩
            obtain rfl := relayObjects_unique hitems hcut hitems' hcut'
            exact ⟨hending, hall'⟩
        · constructor
          · rintro ⟨hending, hall⟩
            exact absurd hall (hnone' hending payloads)
          · rintro ⟨tail, hitems, hcut⟩
            rw [hnone payloads tail hitems] at hcut
            cases hcut

/-- The two readers agree on a stream exactly if what is behind its header fits. -/
theorem streamAgrees_iff {chunks : List Bytes} {s : ByteStream}
    (hchunks : chunks.flatten = s.bytes) (hshort : StreamShort s) :
    StreamAgrees chunks s ↔ StreamFits s := by
  by_cases hheader : ∃ streamType relayed w rest, HeaderLayout streamType relayed w ∧
      s.bytes = w ++ rest
  · obtain ⟨streamType, relayed, w, rest, hlayout, hbytes⟩ := hheader
    rw [streamAgrees_of_layout hchunks hshort.header hlayout hbytes,
      restAgrees_iff (hshort.objects _ _ _ _ hlayout hbytes)]
    constructor
    · intro h streamType' relayed' w' rest' hlayout' hbytes'
      obtain ⟨rfl, rfl, rfl⟩ := hlayout.unique hlayout' (hbytes.symm.trans hbytes')
      exact h
    · intro h
      exact h _ _ _ _ hlayout hbytes
  · -- neither side reads a header
    refine iff_of_true (fun header payloads => ?_) fun streamType relayed w rest hlayout hbytes =>
      absurd ⟨streamType, relayed, w, rest, hlayout, hbytes⟩ hheader
    rw [accepts_iff hchunks, relayAccepts_iff]
    constructor
    · rintro ⟨w, rest, h, hbytes, -⟩
      obtain ⟨streamType, relayed, hlayout, -⟩ :=
        (isHeader_iff (hbytes ▸ hshort.header)).mp h
      exact absurd ⟨streamType, relayed, w, rest, hlayout, hbytes⟩ hheader
    · rintro ⟨streamType, relayed, w, rest, hlayout, -, hbytes, -⟩
      exact absurd ⟨streamType, relayed, w, rest, hlayout, hbytes⟩ hheader

/-- An object with properties that is alone on its stream is never read alike. -/
theorem not_restFits_oneObject {streamType : UInt64} {payload w : Bytes} {ending : Ending}
    (hvalid : Wire.SubgroupHeader.validType streamType = true) (hbit : streamType &&& 0x01 ≠ 0)
    (hobject : IsRelayObject true payload w) : ¬RestFits streamType w ending := by
  intro h
  have hone : Items (IsRelayObject true) [payload] w [] := by
    simpa using Items.cons hobject (Items.nil [])
  rcases h.properties hvalid hbit with ⟨-, payloads, tail, hitems, hcut, hall⟩ | ⟨hnone, -⟩
  · obtain rfl := relayObjects_unique hitems hcut hone rfl
    generalize hw : w = b at hall
    cases hall with
    | @cons _ _ w' r _ hobject' hrest =>
      cases hrest
      obtain ⟨d, l, hd, hl, -, rfl⟩ := hobject'
      obtain ⟨⟨delta, hdelta⟩, -⟩ := isCode_iff.mp hd
      obtain ⟨⟨len, hlen⟩, -⟩ := isCode_iff.mp hl
      obtain ⟨header, _, ⟨hdelta', hlen', block, n, c, hn, -, rfl⟩, -, rfl⟩ := hobject
      -- the two varints and the payload leave no room for the length of the properties
      simp only [List.append_assoc, List.append_nil] at hw
      obtain ⟨-, rfl, hw'⟩ := hdelta'.append_inj hdelta hw
      obtain ⟨-, rfl, hpayload⟩ := hlen'.append_inj hlen hw'
      have hpos := List.length_pos_iff.mpr hn.ne_nil
      have hlength := congrArg List.length hpayload
      simp only [List.length_append] at hlength
      omega
  · have hcut := hnone [payload] [] hone
    cases hcut

/-- Bytes that are all below `0xfc` start no varint of more than six bytes. -/
theorem streamShort_of_lt {s : ByteStream} (h : ∀ byte ∈ s.bytes, byte < 0xfc) :
    StreamShort s := by
  have hstarts (front : Bytes) {tail : Bytes} (hbytes : s.bytes = front ++ tail) :
      StartsShort tail := by
    rintro first tail' rfl
    exact h first (by simp [hbytes])
  refine ⟨⟨hstarts [] rfl, fun _ w1 r1 _ h1 => ⟨hstarts w1 h1, fun _ w2 r2 _ h2 =>
    ⟨hstarts (w1 ++ w2) (by simp [h1, h2]), fun _ w3 r3 _ h3 _ =>
      hstarts (w1 ++ w2 ++ w3) (by simp [h1, h2, h3])⟩⟩⟩, ?_⟩
  intro streamType relayed w rest _ hbytes _ _ payloads tail hitems
  obtain ⟨front, rfl⟩ := hitems.exists_front
  refine ⟨hstarts (w ++ front) (by simp [hbytes]), ?_⟩
  rintro delta d r - rfl
  exact hstarts (w ++ front ++ d) (by simp [hbytes])

/-- The properties of an object, of which there are none, are counted in front of its payload. -/
theorem not_streamAgrees_properties : ¬∀ (chunks : List Bytes) (s : ByteStream),
    chunks.flatten = s.bytes → StreamShort s → StreamAgrees chunks s := by
  intro h
  have hagrees := h [[0x31, 1, 2, 0, 1, 0, 97]]
    { bytes := [0x31, 1, 2, 0, 1, 0, 97], ending := .finished } rfl
    (streamShort_of_lt (by simp)) ⟨1, 2, true, false, none, none⟩ [[97]]
  have hobject : NextRelayObject true { bytes := [0, 1, 0, 97], ending := .finished } (some [97])
      { bytes := [], ending := .finished } := ⟨some (⟨0, 1⟩, [97], [0, 1, 0]), by decide, rfl⟩
  have hend : NextRelayObject true { bytes := [], ending := .finished } none
      { bytes := [], ending := .finished } := ⟨none, by decide, rfl⟩
  have hrelay : RelayAccepts { bytes := [0x31, 1, 2, 0, 1, 0, 97], ending := .finished }
      ⟨1, 2, true, false, none, none⟩ [[97]] :=
    ⟨⟨1, 2, true, false, none, none⟩, [0x31, 1, 2],
      { bytes := [0, 1, 0, 97], ending := .finished }, by decide, rfl, .more hobject (.done hend)⟩
  obtain ⟨r', hread, hcollects⟩ := hagrees.mpr hrelay
  obtain ⟨-, rfl⟩ := Prod.mk.inj (Outcome.ok.inj hread)
  cases hcollects with
  | more hsome => cases hsome

theorem streamAgrees_oneObject : StreamAgrees [[0x30, 1], [2, 0, 1], [97]]
    { bytes := [0x30, 1, 2, 0, 1, 97], ending := .finished } := by
  refine (streamAgrees_iff rfl (streamShort_of_lt (by simp))).mpr ?_
  intro streamType relayed w rest hlayout hbytes
  have hfirst : HeaderLayout 0x30 ⟨1, 2, false, false, none, none⟩
      ([0x30] ++ [1] ++ [2] ++ [] ++ []) :=
    .mk rfl rfl rfl rfl (by decide) (by decide) (by decide) rfl
  obtain ⟨rfl, -, rfl⟩ := hfirst.unique (r := [0, 1, 97]) hlayout hbytes
  refine ⟨fun hinvalid => absurd hinvalid (by decide), fun _ _ payloads tail hitems hcut => ?_,
    fun _ hset => absurd rfl hset⟩
  have hobject : IsRelayObject false [97] [0, 1, 97] :=
    ⟨⟨0, 1⟩, [0] ++ [1] ++ [], .mk (by decide) (by decide) rfl, rfl, rfl⟩
  rcases Items.cases_front (b := []) (delimited_isRelayObject false) hitems hobject with
    ⟨-, rfl⟩ | ⟨payloads', -, hrest⟩
  · cases hcut
  · refine ⟨?_, rfl⟩
    generalize hnil : ([] : Bytes) = b at hrest ⊢
    cases hrest with
    | nil => rfl
    | @cons _ _ w' r _ hnext =>
      have hcut' := hnext.not_cut r
      rw [← hnil] at hcut'
      cases hcut'

end Moqt.Web
