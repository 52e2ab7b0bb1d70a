import Moqt.Library.Method
import Moqt.Wire.Object

/-! `DataStreamReader` and what any sequence of calls of its methods can meet on a stream. -/

namespace Moqt.Wire

open Library

namespace DataStreamReader

/-! ### The methods on the stream -/

/-- `read_varint` -/
def readVarint : Method (UInt64 × Bytes) := do
  let first ← Method.readExact 1
  let totalLen ← Method.ofOutcome (varintByteLength (first.headD 0))
  let rest ← Method.readBuffer (totalLen - 1)
  let raw := first ++ rest
  let value ← Method.decode decodeVarint raw
  return (value, raw)

def subgroupHeader : Method (SubgroupHeader × Bytes) := do
  let (streamType, typeBytes) ← readVarint
  let (_, aliasBytes) ← readVarint
  let (_, groupBytes) ← readVarint
  let subgroupIdMode := (streamType >>> 1) &&& 0x03
  let subgroupBytes ← Method.optional (subgroupIdMode == 0x02) (Prod.snd <$> readVarint)
  let priority ← Method.optional (streamType &&& 0x20 == 0) (Method.readExact 1)
  let raw := typeBytes ++ aliasBytes ++ groupBytes ++ subgroupBytes ++ priority
  let header ← Method.decode SubgroupHeader.decode raw
  return (header, raw)

def properties : Method Bytes := do
  let (propsLen, propsLenBytes) ← readVarint
  Method.allocate propsLen.toNat
  let props ← Method.readBuffer propsLen.toNat
  return propsLenBytes ++ props

def object (hasProperties : Bool) : Method (Option (ObjectHeader × Bytes × Bytes)) := do
  match ← Method.endOnReadExact readVarint with
  | none => return none
  | some (objectIdDelta, deltaBytes) =>
    let (payloadLength, lenBytes) ← readVarint
    let properties ← Method.optional hasProperties properties
    Method.allocate payloadLength.toNat
    let payload ← Method.readBuffer payloadLength.toNat
    return some ({ objectIdDelta, payloadLength }, payload, deltaBytes ++ lenBytes ++ properties)

end DataStreamReader

/-- The stream, and whether its header has announced properties. -/
structure DataStreamReader where
  stream : ByteStream
  hasProperties : Bool

namespace DataStreamReader

def new (stream : ByteStream) : DataStreamReader := { stream, hasProperties := false }

/-- `read_subgroup_header`: the properties bit is set last, if nothing has failed. -/
def readSubgroupHeader (r : DataStreamReader) :
    Except Failure (SubgroupHeader × Bytes) × DataStreamReader :=
  match subgroupHeader r.stream with
  | .ok (header, raw) s =>
    (.ok (header, raw), { stream := s, hasProperties := header.hasProperties })
  | .error e s => (.error e, { r with stream := s })

/-- `read_object` -/
def readObject (r : DataStreamReader) :
    Except Failure (Option (ObjectHeader × Bytes × Bytes)) × DataStreamReader :=
  match object r.hasProperties r.stream with
  | .ok o s => (.ok o, { r with stream := s })
  | .error e s => (.error e, { r with stream := s })

/-- The reader after `n` calls of `read_object`, whatever they return. -/
def afterObjects : Nat → DataStreamReader → DataStreamReader
  | 0, r => r
  | n + 1, r => afterObjects n r.readObject.2

/-! ### Where a read of a varint leaves the stream -/

/-- The byte that no varint starts with. -/
def IsRefused (first : UInt8) : Prop := ∃ m, varintByteLength first = .err m

theorem readVarint_of_isVarint {s t : ByteStream} {v : UInt64} {w : Bytes} (hw : IsVarint v w)
    (hsplit : s.Splits w t) : readVarint s = .ok (v, w) t := by
  obtain ⟨first, tail, rfl, hlength⟩ := hw.length
  obtain ⟨mid, hfirst, hrest⟩ := ByteStream.splits_append (a := [first]).mp hsplit
  have hone : Method.readExact 1 s = .ok [first] mid := Method.readExact_splits hfirst
  have htail : Method.readBuffer tail.length mid = .ok tail t := by
    unfold Method.readBuffer
    split
    · exact Method.readExact_splits hrest
    next hpos =>
      obtain rfl := List.eq_nil_of_length_eq_zero (Nat.eq_zero_of_not_pos hpos)
      rw [ByteStream.eq_iff.mpr hrest]
      rfl
  have hdecode : (decodeVarint ([first] ++ tail)).outcome = .ok v := hw.1
  rw [readVarint, bind_of_ok hone, List.headD_cons, hlength]
  show (Method.readBuffer (tail.length + 1 - 1) >>= _) mid = _
  rw [Nat.add_sub_cancel, bind_of_ok htail, Method.decode, hdecode]
  rfl

theorem readVarint_of_refused {s t : ByteStream} {first : UInt8} (hfirst : IsRefused first)
    (hsplit : s.Splits [first] t) : ∃ m, readVarint s = .error (.error m) t := by
  obtain ⟨m, hm⟩ := hfirst
  have hone : Method.readExact 1 s = .ok [first] t := Method.readExact_splits hsplit
  refine ⟨m, ?_⟩
  rw [readVarint, bind_of_ok hone, List.headD_cons, hm]
  rfl

/-- A read takes a varint, or a byte that none starts with, or all that there is. -/
theorem readVarint_cases (s : ByteStream) :
    (∃ v w t, IsVarint v w ∧ s.Splits w t ∧ readVarint s = .ok (v, w) t) ∨
    (∃ first m t, IsRefused first ∧ s.Splits [first] t ∧ readVarint s = .error (.error m) t) ∨
    ∃ x, readVarint s = .error (.readExact x) (Method.drained s) := by
  cases hbytes : s.bytes with
  | nil =>
    obtain ⟨x, hshort⟩ := Method.readExact_short (n := 1) (s := s) (by simp [hbytes])
    exact .inr (.inr ⟨x, bind_of_error hshort⟩)
  | cons first tail =>
    obtain ⟨mid, hfirst, rfl⟩ := ByteStream.exists_splits (a := [first]) hbytes
    have hone : Method.readExact 1 s = .ok [first] mid := Method.readExact_splits hfirst
    cases hlength : varintByteLength first with
    | panic m => exact absurd hlength (varintByteLength_ne_panic first m)
    | err m =>
      obtain ⟨m, hrun⟩ := readVarint_of_refused ⟨m, hlength⟩ hfirst
      exact .inr (.inl ⟨first, m, mid, ⟨_, hlength⟩, hfirst, hrun⟩)
    | ok len =>
      have hpos := (varintBits_le hlength).1
      by_cases hshort : mid.bytes.length < len - 1
      · obtain ⟨x, hrest⟩ := Method.readExact_short hshort
        have hbuffer : Method.readBuffer (len - 1) mid = .error (.readExact x)
            (Method.drained s) := by
          rw [Method.readBuffer, if_pos (by omega), hrest, Method.drained_eq hfirst]
        refine .inr (.inr ⟨x, ?_⟩)
        rw [readVarint, bind_of_ok hone, List.headD_cons, hlength]
        show (Method.readBuffer (len - 1) >>= _) mid = _
        rw [bind_of_error hbuffer]
      · obtain ⟨t, hsplit, -⟩ := ByteStream.exists_splits
          (List.take_append_drop (len - 1) mid.bytes).symm
        have htake := List.length_take_of_le (Nat.le_of_not_lt hshort)
        have hwhole : varintByteLength first = .ok ((mid.bytes.take (len - 1)).length + 1) := by
          rw [hlength, htake, Nat.sub_add_cancel hpos]
        obtain ⟨v, hv⟩ := exists_isVarint hwhole
        have hsplit := hfirst.trans hsplit
        exact .inl ⟨v, _, t, hv, hsplit, readVarint_of_isVarint hv hsplit⟩

/-! ### The methods as readers -/

theorem toReader_readVarint : readVarint.toReader = Wire.readVarint := by
  simp only [readVarint, Wire.readVarint, Method.toReader_bind, Method.toReader_pure,
    Method.toReader_readExact, Method.toReader_ofOutcome, Method.toReader_readBuffer,
    Method.toReader_decode]

theorem toReader_subgroupHeader : subgroupHeader.toReader = Wire.readSubgroupHeader := by
  simp only [subgroupHeader, Wire.readSubgroupHeader, Method.toReader_bind, Method.toReader_pure,
    Method.toReader_readExact, Method.toReader_optional, Method.toReader_map,
    Method.toReader_decode, toReader_readVarint]

theorem toReader_properties : properties.toReader = readProperties := by
  simp only [properties, readProperties, Method.toReader_bind, Method.toReader_pure,
    Method.toReader_allocate, Method.toReader_readBuffer, toReader_readVarint]

theorem drained_of_readVarint {s t : ByteStream} {e : ReadExactError}
    (h : readVarint s = .error (.readExact e) t) : t = Method.drained s := by
  rcases readVarint_cases s with ⟨v, w, mid, -, -, hrun⟩ | ⟨first, m, mid, -, -, hrun⟩ | ⟨x, hrun⟩
  · cases hrun.symm.trans h
  · cases hrun.symm.trans h
  · cases hrun.symm.trans h
    rfl

theorem toReader_object (hasProperties : Bool) :
    (object hasProperties).toReader = Wire.readObject hasProperties := by
  have hend := Method.toReader_endOnReadExact fun _ _ _ => drained_of_readVarint
  rw [object, Wire.readObject, Method.toReader_bind, hend, toReader_readVarint]
  congr 1
  funext first
  cases first with
  | none => rfl
  | some first =>
    simp only [Method.toReader_bind, Method.toReader_pure, Method.toReader_allocate,
      Method.toReader_readBuffer, Method.toReader_optional, toReader_readVarint,
      toReader_properties]

/-! ### Where the calls start -/

/-- Whole varints of these values, a byte that no varint starts with, and the bytes `r`. -/
def Breaks (values : List UInt64) (b r : Bytes) : Prop :=
  ∃ words first, List.Forall₂ IsVarint values words ∧ IsRefused first ∧
    b = words.flatten ++ (first :: r)

/-- The bytes behind a header, or behind the byte at which the reading of the header has stopped:
one that no varint starts with, or the last one of a header whose type is not valid. -/
inductive BehindHeader : Bytes → (hasProperties : Bool) → Bytes → Prop
  | whole {streamType : UInt64} {header : SubgroupHeader} {raw r : Bytes}
      (hformat : SubgroupHeader.Format IsVarint streamType header raw) :
      BehindHeader (raw ++ r) header.hasProperties r
  | invalid {streamType trackAlias groupId : UInt64} {id : Option UInt64} {priority : Option UInt8}
      {typeBytes aliasBytes groupBytes idBytes r : Bytes}
      (hinvalid : SubgroupHeader.validType streamType = false)
      (hid : id.isSome = (SubgroupHeader.subgroupIdMode streamType == 0x02))
      (hpriority : priority.isSome = (streamType &&& 0x20 == 0))
      (typeField : IsVarint streamType typeBytes) (aliasField : IsVarint trackAlias aliasBytes)
      (groupField : IsVarint groupId groupBytes)
      (idField : SubgroupHeader.IsField IsVarint id idBytes) :
      BehindHeader (typeBytes ++ aliasBytes ++ groupBytes ++ idBytes ++ priority.toList ++ r)
        false r
  | broken {values : List UInt64} {b r : Bytes}
      (hfields : values.length < 3 ∨
        values.length = 3 ∧ SubgroupHeader.subgroupIdMode (values.headD 0) = 0x02)
      (hbreaks : Breaks values b r) : BehindHeader b false r

/-- The bytes behind an object, or behind the byte at which the reading of its header has
stopped. -/
inductive BehindObject (hasProperties : Bool) : Bytes → Bytes → Prop
  | whole {header : ObjectHeader} {raw payload r : Bytes}
      (hformat : HeaderFormat hasProperties header raw)
      (hpayload : payload.length = header.payloadLength.toNat) :
      BehindObject hasProperties (raw ++ payload ++ r) r
  | broken {values : List UInt64} {b r : Bytes}
      (hfields : values.length < 2 ∨ values.length = 2 ∧ hasProperties = true)
      (hbreaks : Breaks values b r) : BehindObject hasProperties b r

theorem Breaks.nil {first : UInt8} {s t : ByteStream} (hfirst : IsRefused first)
    (hsplit : s.Splits [first] t) : Breaks [] s.bytes t.bytes :=
  ⟨[], first, .nil, hfirst, hsplit.1⟩

theorem Breaks.cons {v : UInt64} {w r : Bytes} {values : List UInt64} {s t : ByteStream}
    (h : Breaks values t.bytes r) (hw : IsVarint v w) (hsplit : s.Splits w t) :
    Breaks (v :: values) s.bytes r := by
  obtain ⟨words, first, hwords, hfirst, hbytes⟩ := h
  refine ⟨w :: words, first, .cons hw hwords, hfirst, ?_⟩
  rw [hsplit.1, hbytes, List.flatten_cons, List.append_assoc]

/-- The front of what is in front of a break. -/
theorem Breaks.split {v : UInt64} {r : Bytes} {values : List UInt64} {s : ByteStream}
    (h : Breaks (v :: values) s.bytes r) :
    ∃ w t, IsVarint v w ∧ s.Splits w t ∧ Breaks values t.bytes r := by
  obtain ⟨words, first, hwords, hfirst, hbytes⟩ := h
  cases hwords with
  | @cons _ w _ words hw hwords =>
    rw [List.flatten_cons, List.append_assoc] at hbytes
    obtain ⟨t, hsplit, ht⟩ := ByteStream.exists_splits hbytes
    exact ⟨w, t, hw, hsplit, words, first, hwords, hfirst, ht⟩

theorem Breaks.readVarint {r : Bytes} {s : ByteStream} (h : Breaks [] s.bytes r) :
    ∃ m t, readVarint s = .error (.error m) t ∧ t.bytes = r := by
  obtain ⟨words, first, hwords, hfirst, hbytes⟩ := h
  cases hwords
  obtain ⟨t, hsplit, ht⟩ := ByteStream.exists_splits (a := [first]) hbytes
  obtain ⟨m, hrun⟩ := readVarint_of_refused hfirst hsplit
  exact ⟨m, t, hrun, ht⟩

/-- Where a sequence that starts with a varint fails with an error: at the varint's first byte, or
behind the varint. -/
theorem readVarint_bind_error {α : Type} {f : UInt64 × Bytes → Method α} {s t : ByteStream}
    {m : String} (h : (readVarint >>= f) s = .error (.error m) t) :
    Breaks [] s.bytes t.bytes ∨
      ∃ v w mid, IsVarint v w ∧ s.Splits w mid ∧ f (v, w) mid = .error (.error m) t := by
  rcases readVarint_cases s with ⟨v, w, mid, hw, hsplit, hrun⟩ |
    ⟨first, m', mid, hfirst, hsplit, hrun⟩ | ⟨x, hrun⟩
  · rw [bind_of_ok hrun] at h
    exact .inr ⟨v, w, mid, hw, hsplit, h⟩
  · rw [bind_of_error hrun] at h
    cases h
    exact .inl (.nil hfirst hsplit)
  · rw [bind_of_error hrun] at h
    cases h

/-! ### Calls of `read_object` -/

/-- Behind the header's varints there are only reads of buffers. -/
theorem readBuffer_bind_ne_error {α : Type} {n : Nat} {f : Bytes → α} {s t : ByteStream}
    {m : String} : (do
      Method.allocate n
      let bytes ← Method.readBuffer n
      return f bytes : Method α) s ≠ .error (.error m) t := by
  intro h
  have hfails : ((do
      Method.allocate n
      let bytes ← Method.readBuffer n
      return f bytes : Method α).toReader).Fails s (.error m) :=
    Method.toReader_fails.mpr ⟨t, h⟩
  simp [Reader.fails_readBuffer] at hfails

theorem readVarint_drains : readVarint.Drains := by
  intro s e t h
  obtain rfl := drained_of_readVarint h
  exact Method.drained_bytes s

theorem properties_drains : properties.Drains :=
  readVarint_drains.bind fun _ => (Method.Drains.allocate _).bind fun _ =>
    (Method.Drains.readBuffer _).bind fun _ => .pure _

theorem object_drains (hasProperties : Bool) : (object hasProperties).Drains := by
  refine (Method.Drains.endOnReadExact _).bind fun first => ?_
  cases first with
  | none => exact .pure none
  | some first =>
    exact readVarint_drains.bind fun _ => (properties_drains.optional _).bind fun _ =>
      (Method.Drains.allocate _).bind fun _ => (Method.Drains.readBuffer _).bind fun _ => .pure _

/-- The stream has ended where a call finds no object. -/
theorem object_none {hasProperties : Bool} {s t : ByteStream}
    (h : object hasProperties s = .ok none t) : t.bytes = [] := by
  rcases readVarint_cases s with ⟨v, w, mid, hw, hsplit, -⟩ | ⟨first, m, mid, -, -, hrun⟩ |
    ⟨x, hrun⟩
  · have hreturns := Method.toReader_returns.mpr h
    rw [toReader_object] at hreturns
    have hcut := returns_readObject_none.mp ⟨t, hreturns⟩
    rw [hsplit.1, not_cutVarint_of_isVarint hw] at hcut
    cases hcut
  · rw [object, bind_of_error (Method.endOnReadExact_error hrun)] at h
    cases h
  · rw [object, bind_of_ok (Method.endOnReadExact_short hrun)] at h
    cases h
    exact Method.drained_bytes s

/-- A call that fails with an error has met a byte that no varint starts with. -/
theorem object_error {hasProperties : Bool} {s t : ByteStream} {m : String}
    (h : object hasProperties s = .error (.error m) t) :
    BehindObject hasProperties s.bytes t.bytes := by
  rcases readVarint_cases s with ⟨v, w, mid, hw, hsplit, hrun⟩ |
    ⟨first, m', mid, hfirst, hsplit, hrun⟩ | ⟨x, hrun⟩
  · rw [object, bind_of_ok (Method.endOnReadExact_ok hrun)] at h
    rcases readVarint_bind_error h with hbreaks | ⟨len, l, mid', hlen, hsplitLen, h⟩
    · exact .broken (.inl (by simp)) (hbreaks.cons hw hsplit)
    cases hasProperties with
    | false => exact absurd h readBuffer_bind_ne_error
    | true =>
      rcases bind_eq_error h with h | ⟨props, last, -, h⟩
      · rcases readVarint_bind_error h with hbreaks | ⟨n, c, last, -, -, h⟩
        · exact .broken (.inr ⟨rfl, rfl⟩) ((hbreaks.cons hlen hsplitLen).cons hw hsplit)
        · exact absurd h readBuffer_bind_ne_error
      · exact absurd h readBuffer_bind_ne_error
  · rw [object, bind_of_error (Method.endOnReadExact_error hrun)] at h
    cases h
    exact .broken (.inl (by simp)) (.nil hfirst hsplit)
  · rw [object, bind_of_ok (Method.endOnReadExact_short hrun)] at h
    cases h

/-- A call panics on an oversized object; otherwise it leaves nothing, or what is behind an object
or a break. -/
theorem object_left (hasProperties : Bool) (s : ByteStream) :
    oversized hasProperties s.bytes = true ∨ ((object hasProperties).left s).bytes = [] ∨
      BehindObject hasProperties s.bytes ((object hasProperties).left s).bytes := by
  cases hrun : object hasProperties s with
  | ok o t =>
    rw [Method.left_of_ok hrun]
    cases o with
    | none => exact .inr (.inl (object_none hrun))
    | some o =>
      obtain ⟨header, payload, raw⟩ := o
      have hreturns := Method.toReader_returns.mpr hrun
      rw [toReader_object] at hreturns
      obtain ⟨hformat, hlen, hsplit⟩ := returns_readObject.mp hreturns
      rw [hsplit.1]
      exact .inr (.inr (.whole hformat hlen))
  | error e t =>
    rw [Method.left_of_error hrun]
    cases e with
    | readExact x => exact .inr (.inl (object_drains hasProperties s x t hrun))
    | error m => exact .inr (.inr (object_error hrun))
    | panic m =>
      have hfails := Method.toReader_fails.mpr ⟨t, hrun⟩
      rw [toReader_object] at hfails
      exact .inl (panics_readObject_iff.mp ⟨m, hfails⟩)

/-- What is behind an object or a break is left by the call. -/
theorem BehindObject.left_eq {hasProperties : Bool} {s : ByteStream} {r : Bytes}
    (h : BehindObject hasProperties s.bytes r) : ((object hasProperties).left s).bytes = r := by
  generalize hbytes : s.bytes = b at h
  cases h with
  | @whole header raw payload r hformat hpayload =>
    obtain ⟨t, hsplit, rfl⟩ := ByteStream.exists_splits hbytes
    have hreturns := returns_readObject.mpr ⟨hformat, hpayload, hsplit⟩
    rw [← toReader_object] at hreturns
    rw [Method.left_of_ok (Method.toReader_returns.mp hreturns)]
  | @broken values b r hfields hbreaks =>
    subst hbytes
    cases values with
    | nil =>
      obtain ⟨m, t, hrun, rfl⟩ := hbreaks.readVarint
      rw [object, Method.left_of_error (bind_of_error (Method.endOnReadExact_error hrun))]
    | cons delta values =>
      obtain ⟨w, mid, hw, hsplit, hbreaks⟩ := hbreaks.split
      have hdelta := Method.endOnReadExact_ok (readVarint_of_isVarint hw hsplit)
      cases values with
      | nil =>
        obtain ⟨m, t, hrun, rfl⟩ := hbreaks.readVarint
        have hobject : object hasProperties s = .error (.error m) t := by
          rw [object, bind_of_ok hdelta]
          exact bind_of_error hrun
        rw [Method.left_of_error hobject]
      | cons len values =>
        simp only [List.length_cons] at hfields
        obtain ⟨hlength, rfl⟩ : values.length = 0 ∧ hasProperties = true := by
          rcases hfields with hfew | ⟨htwo, hprops⟩
          · omega
          · exact ⟨by omega, hprops⟩
        obtain rfl := List.eq_nil_of_length_eq_zero hlength
        obtain ⟨l, mid', hl, hsplitLen, hbreaks⟩ := hbreaks.split
        obtain ⟨m, t, hrun, rfl⟩ := hbreaks.readVarint
        have hobject : object true s = .error (.error m) t := by
          rw [object, bind_of_ok hdelta]
          refine (bind_of_ok (readVarint_of_isVarint hl hsplitLen)).trans ?_
          exact bind_of_error (bind_of_error hrun)
        rw [Method.left_of_error hobject]

/-! ### Calls of `read_subgroup_header` -/

/-- A header whose type is not valid is refused, whatever its other fields are. -/
theorem decode_invalid {streamType : UInt64} {typeBytes : Bytes}
    (htype : IsVarint streamType typeBytes)
    (hinvalid : SubgroupHeader.validType streamType = false) (rest : Bytes) :
    ∃ m, (SubgroupHeader.decode (typeBytes ++ rest)).outcome = .err m := by
  have hfront := (htype.returns rest).1
  simp [SubgroupHeader.decode, bind, Decoder.bind, hfront, Decoder.ensure, hinvalid, Decoder.bail]

theorem optionalVarint_of_isField {present : Bool} {id : Option UInt64} {w : Bytes}
    {s t : ByteStream} (hid : id.isSome = present) (hw : SubgroupHeader.IsField IsVarint id w)
    (hsplit : s.Splits w t) :
    Method.optional present (Prod.snd <$> readVarint) s = .ok w t := by
  refine Method.toReader_returns.mp ?_
  rw [Method.toReader_optional, Method.toReader_map, toReader_readVarint]
  exact returns_optionalVarint.mpr ⟨id, hid, hw, hsplit⟩

theorem optionalByte_of_splits {present : Bool} {v : Option UInt8} {s t : ByteStream}
    (hv : v.isSome = present) (hsplit : s.Splits v.toList t) :
    Method.optional present (Method.readExact 1) s = .ok v.toList t := by
  refine Method.toReader_returns.mp ?_
  rw [Method.toReader_optional, Method.toReader_readExact]
  exact returns_optionalByte.mpr ⟨v, hv, rfl, hsplit⟩

section Rules

variable {α : Type} {s : ByteStream} {P : EStateM.Result Failure ByteStream α → Prop}

/-- To show something of the result of a sequence that starts with a varint. -/
theorem readVarint_rule {f : UInt64 × Bytes → Method α}
    (hshort : ∀ x, P (.error (.readExact x) (Method.drained s)))
    (hbreak : ∀ m t, Breaks [] s.bytes t.bytes → P (.error (.error m) t))
    (hok : ∀ v w t, IsVarint v w → s.Splits w t → P (f (v, w) t)) : P ((readVarint >>= f) s) := by
  rcases readVarint_cases s with ⟨v, w, t, hw, hsplit, hrun⟩ | ⟨first, m, t, hfirst, hsplit, hrun⟩ |
    ⟨x, hrun⟩
  · rw [bind_of_ok hrun]
    exact hok v w t hw hsplit
  · rw [bind_of_error hrun]
    exact hbreak m t (.nil hfirst hsplit)
  · rw [bind_of_error hrun]
    exact hshort x

theorem optionalVarint_rule {present : Bool} {f : Bytes → Method α}
    (hshort : ∀ x, P (.error (.readExact x) (Method.drained s)))
    (hbreak : ∀ m t, present = true → Breaks [] s.bytes t.bytes → P (.error (.error m) t))
    (hok : ∀ id w t, id.isSome = present → SubgroupHeader.IsField IsVarint id w → s.Splits w t →
      P (f w t)) : P ((Method.optional present (Prod.snd <$> readVarint) >>= f) s) := by
  have done : ∀ id {w t}, id.isSome = present → SubgroupHeader.IsField IsVarint id w →
      s.Splits w t → P ((Method.optional present (Prod.snd <$> readVarint) >>= f) s) := by
    intro id w t hid hw hsplit
    rw [bind_of_ok (optionalVarint_of_isField hid hw hsplit)]
    exact hok id w t hid hw hsplit
  cases present with
  | false => exact done none rfl rfl (.refl s)
  | true =>
    have failed : ∀ {e t}, readVarint s = .error e t → P (.error e t) →
        P ((Method.optional true (Prod.snd <$> readVarint) >>= f) s) := by
      intro e t hrun hP
      have hmap : Method.optional true (Prod.snd <$> readVarint) s = .error e t := by
        simp only [Method.optional, if_true, Functor.map, EStateM.map, hrun]
      rwa [bind_of_error hmap]
    rcases readVarint_cases s with ⟨v, w, t, hw, hsplit, -⟩ | ⟨first, m, t, hfirst, hsplit, hrun⟩ |
      ⟨x, hrun⟩
    · exact done (some v) rfl hw hsplit
    · exact failed hrun (hbreak m t rfl (.nil hfirst hsplit))
    · exact failed hrun (hshort x)

theorem optionalByte_rule {present : Bool} {f : Bytes → Method α}
    (hshort : ∀ x, P (.error (.readExact x) (Method.drained s)))
    (hok : ∀ (v : Option UInt8) t, v.isSome = present → s.Splits v.toList t → P (f v.toList t)) :
    P ((Method.optional present (Method.readExact 1) >>= f) s) := by
  have done : ∀ {v : Option UInt8} {t}, v.isSome = present → s.Splits v.toList t →
      P ((Method.optional present (Method.readExact 1) >>= f) s) := by
    intro v t hv hsplit
    rw [bind_of_ok (optionalByte_of_splits hv hsplit)]
    exact hok v t hv hsplit
  cases present with
  | false => exact done (v := none) rfl (.refl s)
  | true =>
    cases hbytes : s.bytes with
    | nil =>
      obtain ⟨x, hrun⟩ := Method.readExact_short (n := 1) (s := s) (by simp [hbytes])
      rw [bind_of_error (x := Method.optional true (Method.readExact 1)) hrun]
      exact hshort x
    | cons v tail =>
      obtain ⟨t, hsplit, -⟩ := ByteStream.exists_splits (a := [v]) hbytes
      exact done (v := some v) rfl hsplit

end Rules

/-- How a call on the stream ends: with a header; at a break, or with a header that is refused; or
where the stream does. -/
inductive HeaderEnd (s : ByteStream) :
    EStateM.Result Failure ByteStream (SubgroupHeader × Bytes) → Prop
  | header {streamType : UInt64} {header : SubgroupHeader} {raw : Bytes} {t : ByteStream}
      (hformat : SubgroupHeader.Format IsVarint streamType header raw) (hsplit : s.Splits raw t) :
      HeaderEnd s (.ok (header, raw) t)
  | refused {m : String} {t : ByteStream} (hbehind : BehindHeader s.bytes false t.bytes) :
      HeaderEnd s (.error (.error m) t)
  | short {x : ReadExactError} {t : ByteStream} (hnil : t.bytes = []) :
      HeaderEnd s (.error (.readExact x) t)

/-- Once all fields are there, the type decides. -/
theorem HeaderEnd.decode {s t : ByteStream} {streamType trackAlias groupId : UInt64}
    {id : Option UInt64} {priority : Option UInt8} {typeBytes aliasBytes groupBytes idBytes : Bytes}
    (hid : id.isSome = (SubgroupHeader.subgroupIdMode streamType == 0x02))
    (hpriority : priority.isSome = (streamType &&& 0x20 == 0))
    (typeField : IsVarint streamType typeBytes) (aliasField : IsVarint trackAlias aliasBytes)
    (groupField : IsVarint groupId groupBytes)
    (idField : SubgroupHeader.IsField IsVarint id idBytes)
    (hsplit : s.Splits (typeBytes ++ aliasBytes ++ groupBytes ++ idBytes ++ priority.toList) t) :
    HeaderEnd s ((do
      let raw := typeBytes ++ aliasBytes ++ groupBytes ++ idBytes ++ priority.toList
      let header ← Method.decode SubgroupHeader.decode raw
      return (header, raw) : Method (SubgroupHeader × Bytes)) t) := by
  cases hvalid : SubgroupHeader.validType streamType with
  | true =>
    have hformat : SubgroupHeader.Format IsVarint streamType
        ⟨trackAlias, groupId, streamType &&& 0x01 != 0, streamType &&& 0x08 != 0, id, priority⟩
        (typeBytes ++ aliasBytes ++ groupBytes ++ idBytes ++ priority.toList) :=
      .mk ⟨hvalid, rfl, rfl, hid, hpriority⟩ typeField aliasField groupField idField
    have hreturns := SubgroupHeader.returns_decode.mpr ⟨_, _, hformat, (List.append_nil _).symm⟩
    simp only [Method.decode, hreturns.1]
    exact .header hformat hsplit
  | false =>
    obtain ⟨m, hdecode⟩ := decode_invalid typeField hvalid
      (aliasBytes ++ (groupBytes ++ (idBytes ++ priority.toList)))
    simp only [← List.append_assoc] at hdecode
    simp only [Method.decode, hdecode]
    refine .refused ?_
    rw [hsplit.1]
    exact .invalid hvalid hid hpriority typeField aliasField groupField idField

theorem subgroupHeader_ends (s : ByteStream) : HeaderEnd s (subgroupHeader s) := by
  have short : ∀ (u : ByteStream) x, HeaderEnd s (.error (.readExact x) (Method.drained u)) :=
    fun u _ => .short (Method.drained_bytes u)
  have broken : ∀ (values : List UInt64) {m t}, values.length < 3 →
      Breaks values s.bytes t.bytes → HeaderEnd s (.error (.error m) t) :=
    fun _ _ _ hfew hbreaks => .refused (.broken (.inl hfew) hbreaks)
  refine readVarint_rule (short s) (fun m t hb => broken [] (by simp) hb)
    fun streamType w₁ s₁ h₁ split₁ => ?_
  refine readVarint_rule (short s₁)
    (fun m t hb => broken [streamType] (by simp) (hb.cons h₁ split₁))
    fun trackAlias w₂ s₂ h₂ split₂ => ?_
  refine readVarint_rule (short s₂)
    (fun m t hb => broken [streamType, trackAlias] (by simp) ((hb.cons h₂ split₂).cons h₁ split₁))
    fun groupId w₃ s₃ h₃ split₃ => ?_
  refine optionalVarint_rule (short s₃) (fun m t hmode hb => ?_)
    fun id w₄ s₄ hid h₄ split₄ => ?_
  · -- the subgroup ID is there in this mode
    have hfields : [streamType, trackAlias, groupId].length = 3 ∧
        SubgroupHeader.subgroupIdMode ([streamType, trackAlias, groupId].headD 0) = 0x02 :=
      ⟨rfl, beq_iff_eq.mp hmode⟩
    exact .refused (.broken (.inr hfields) (((hb.cons h₃ split₃).cons h₂ split₂).cons h₁ split₁))
  refine optionalByte_rule (short s₄) fun priority s₅ hpriority split₅ => ?_
  exact .decode hid hpriority h₁ h₂ h₃ h₄
    ((((split₁.trans split₂).trans split₃).trans split₄).trans split₅)

/-- A call leaves what is behind a header, or behind a break, and no properties unless a header has
announced them. -/
theorem BehindHeader.left_eq {s : ByteStream} {hasProperties : Bool} {r : Bytes}
    (h : BehindHeader s.bytes hasProperties r) :
    (new s).readSubgroupHeader.2.hasProperties = hasProperties ∧
      (new s).readSubgroupHeader.2.stream.bytes = r := by
  have failed : ∀ {m t}, subgroupHeader s = .error (.error m) t → t.bytes = r →
      (new s).readSubgroupHeader.2.hasProperties = false ∧
        (new s).readSubgroupHeader.2.stream.bytes = r := by
    intro m t hrun ht
    simp [readSubgroupHeader, new, hrun, ht]
  generalize hbytes : s.bytes = b at h
  cases h with
  | @whole streamType header raw r hformat =>
    obtain ⟨t, hsplit, rfl⟩ := ByteStream.exists_splits hbytes
    have hreturns := returns_readSubgroupHeader.mpr ⟨⟨streamType, hformat⟩, hsplit⟩
    rw [← toReader_subgroupHeader] at hreturns
    have hrun := Method.toReader_returns.mp hreturns
    simp [readSubgroupHeader, new, hrun]
  | @invalid streamType trackAlias groupId id priority typeBytes aliasBytes groupBytes idBytes r
      hinvalid hid hpriority typeField aliasField groupField idField =>
    obtain ⟨s₅, hsplit, rfl⟩ := ByteStream.exists_splits hbytes
    obtain ⟨s₄, hsplit, split₅⟩ := ByteStream.splits_append.mp hsplit
    obtain ⟨s₃, hsplit, split₄⟩ := ByteStream.splits_append.mp hsplit
    obtain ⟨s₂, hsplit, split₃⟩ := ByteStream.splits_append.mp hsplit
    obtain ⟨s₁, split₁, split₂⟩ := ByteStream.splits_append.mp hsplit
    obtain ⟨m, hdecode⟩ := decode_invalid typeField hinvalid
      (aliasBytes ++ (groupBytes ++ (idBytes ++ priority.toList)))
    simp only [← List.append_assoc] at hdecode
    refine failed (m := m) (t := s₅) ?_ rfl
    refine (bind_of_ok (readVarint_of_isVarint typeField split₁)).trans ?_
    refine (bind_of_ok (readVarint_of_isVarint aliasField split₂)).trans ?_
    refine (bind_of_ok (readVarint_of_isVarint groupField split₃)).trans ?_
    refine (bind_of_ok (optionalVarint_of_isField hid idField split₄)).trans ?_
    refine (bind_of_ok (optionalByte_of_splits hpriority split₅)).trans ?_
    simp only [Method.decode, hdecode]
    rfl
  | @broken values b r hfields hbreaks =>
    subst hbytes
    cases values with
    | nil =>
      obtain ⟨m, t, hrun, ht⟩ := hbreaks.readVarint
      exact failed (bind_of_error hrun) ht
    | cons streamType values =>
      obtain ⟨w₁, s₁, h₁, split₁, hbreaks⟩ := hbreaks.split
      have run₁ := readVarint_of_isVarint h₁ split₁
      cases values with
      | nil =>
        obtain ⟨m, t, hrun, ht⟩ := hbreaks.readVarint
        exact failed ((bind_of_ok run₁).trans (bind_of_error hrun)) ht
      | cons trackAlias values =>
        obtain ⟨w₂, s₂, h₂, split₂, hbreaks⟩ := hbreaks.split
        have run₂ := readVarint_of_isVarint h₂ split₂
        cases values with
        | nil =>
          obtain ⟨m, t, hrun, ht⟩ := hbreaks.readVarint
          exact failed ((bind_of_ok run₁).trans ((bind_of_ok run₂).trans
            (bind_of_error hrun))) ht
        | cons groupId values =>
          obtain ⟨w₃, s₃, h₃, split₃, hbreaks⟩ := hbreaks.split
          have run₃ := readVarint_of_isVarint h₃ split₃
          simp only [List.length_cons, List.headD_cons] at hfields
          obtain ⟨hlength, hmode⟩ : values.length = 0 ∧
              SubgroupHeader.subgroupIdMode streamType = 0x02 := by
            rcases hfields with hfew | ⟨hthree, hmode⟩
            · omega
            · exact ⟨by omega, hmode⟩
          obtain rfl := List.eq_nil_of_length_eq_zero hlength
          obtain ⟨m, t, hrun, ht⟩ := hbreaks.readVarint
          have hid : Method.optional (SubgroupHeader.subgroupIdMode streamType == 0x02)
              (Prod.snd <$> readVarint) s₃ = .error (.error m) t := by
            simp only [hmode, beq_self_eq_true, Method.optional, if_true, Functor.map,
              EStateM.map, hrun]
          exact failed ((bind_of_ok run₁).trans ((bind_of_ok run₂).trans
            ((bind_of_ok run₃).trans (bind_of_error hid)))) ht

/-! ### Sequences of calls -/

/-- Where, in the bytes of a stream, a call of `read_object` can start, and whether the header has
announced properties by then. -/
inductive Start (b : Bytes) : (hasProperties : Bool) → Bytes → Prop
  | header {hasProperties : Bool} {r : Bytes} (h : BehindHeader b hasProperties r) :
      Start b hasProperties r
  | object {hasProperties : Bool} {r r' : Bytes} (h : Start b hasProperties r)
      (hbehind : BehindObject hasProperties r r') : Start b hasProperties r'

/-- No call panics, neither that of `read_subgroup_header` nor any number of calls of `read_object`
after it, whatever the calls before have returned. -/
structure NeverPanics (s : ByteStream) : Prop where
  header : ∀ m, (new s).readSubgroupHeader.1 ≠ .error (.panic m)
  object : ∀ n m, ((new s).readSubgroupHeader.2.afterObjects n).readObject.1 ≠ .error (.panic m)

/-- Where a call can start, no object declares a payload, or properties, of more than `isize::MAX`
bytes. -/
def BuffersFit (b : Bytes) : Prop :=
  ∀ hasProperties r, Start b hasProperties r → oversized hasProperties r = false

theorem readObject_left (r : DataStreamReader) : r.readObject.2 =
    { r with stream := (object r.hasProperties).left r.stream } := by
  unfold readObject Method.left
  cases object r.hasProperties r.stream with
  | ok o s | error e s => rfl

@[simp] theorem readObject_hasProperties (r : DataStreamReader) :
    r.readObject.2.hasProperties = r.hasProperties := by
  rw [readObject_left]

@[simp] theorem afterObjects_hasProperties (r : DataStreamReader) (n : Nat) :
    (r.afterObjects n).hasProperties = r.hasProperties := by
  induction n generalizing r with
  | zero => rfl
  | succ n ih => rw [afterObjects, ih, readObject_hasProperties]

theorem afterObjects_succ (r : DataStreamReader) (n : Nat) :
    r.afterObjects (n + 1) = (r.afterObjects n).readObject.2 := by
  induction n generalizing r with
  | zero => rfl
  | succ n ih => rw [afterObjects, ih, afterObjects]

theorem readObject_panics_iff {r : DataStreamReader} :
    (∃ m, r.readObject.1 = .error (.panic m)) ↔
      oversized r.hasProperties r.stream.bytes = true := by
  rw [← panics_readObject_iff, ← toReader_object]
  simp only [Method.toReader_fails]
  unfold readObject
  cases h : object r.hasProperties r.stream with
  | ok o s => simp
  | error e s => simp

/-- Nothing is left of the stream, or the call starts where the bytes say. -/
def AtStart (b : Bytes) (r : DataStreamReader) : Prop :=
  r.stream.bytes = [] ∨ Start b r.hasProperties r.stream.bytes

theorem oversized_nil (hasProperties : Bool) : oversized hasProperties [] = false := by
  cases hasProperties <;> decide

theorem AtStart.fits {b : Bytes} {r : DataStreamReader} (h : AtStart b r) (hfit : BuffersFit b) :
    oversized r.hasProperties r.stream.bytes = false := by
  rcases h with hnil | hstart
  · rw [hnil]
    exact oversized_nil _
  · exact hfit _ _ hstart

/-- At the end of a stream a call leaves it there. -/
theorem object_left_nil {hasProperties : Bool} {s : ByteStream} (h : s.bytes = []) :
    ((object hasProperties).left s).bytes = [] := by
  rcases object_left hasProperties s with hlarge | hnil | hbehind
  · rw [h, oversized_nil] at hlarge
    cases hlarge
  · exact hnil
  · rw [h] at hbehind
    generalize hb : ([] : Bytes) = b at hbehind
    cases hbehind with
    | whole hformat hpayload =>
      exact absurd (List.append_eq_nil_iff.mp (List.append_eq_nil_iff.mp hb.symm).1).1
        hformat.ne_nil
    | broken hfields hbreaks =>
      obtain ⟨words, first, -, -, hbytes⟩ := hbreaks
      simp [← hb] at hbytes

theorem AtStart.readObject {b : Bytes} {r : DataStreamReader} (h : AtStart b r)
    (hfit : BuffersFit b) : AtStart b r.readObject.2 := by
  have hsmall := h.fits hfit
  rw [readObject_left]
  rcases h with hnil | hstart
  · exact .inl (object_left_nil hnil)
  · rcases object_left r.hasProperties r.stream with hlarge | hleft | hbehind
    · rw [hsmall] at hlarge
      cases hlarge
    · exact .inl hleft
    · exact .inr (.object hstart hbehind)

theorem AtStart.afterObjects {b : Bytes} {r : DataStreamReader} (h : AtStart b r)
    (hfit : BuffersFit b) (n : Nat) : AtStart b (r.afterObjects n) := by
  induction n generalizing r with
  | zero => exact h
  | succ n ih => exact ih (h.readObject hfit)

theorem atStart_readSubgroupHeader (s : ByteStream) :
    AtStart s.bytes (new s).readSubgroupHeader.2 := by
  have hend := subgroupHeader_ends s
  unfold readSubgroupHeader
  simp only [new]
  generalize subgroupHeader s = o at hend
  cases hend with
  | header hformat hsplit =>
    refine .inr (.header ?_)
    rw [hsplit.1]
    exact .whole hformat
  | refused hbehind => exact .inr (.header hbehind)
  | short hnil => exact .inl hnil

/-- Every place where the bytes say that a call can start is reached by calls. -/
theorem Start.exists_afterObjects {s : ByteStream} {hasProperties : Bool} {r : Bytes}
    (h : Start s.bytes hasProperties r) :
    ∃ n, ((new s).readSubgroupHeader.2.afterObjects n).hasProperties = hasProperties ∧
      ((new s).readSubgroupHeader.2.afterObjects n).stream.bytes = r := by
  induction h with
  | header h => exact ⟨0, h.left_eq⟩
  | @object r r' _ hbehind ih =>
    obtain ⟨n, hprops, hr⟩ := ih
    refine ⟨n + 1, ?_, ?_⟩
    · rw [afterObjects_succ, readObject_hasProperties, hprops]
    · rw [← hr, ← hprops] at hbehind
      rw [afterObjects_succ, readObject_left]
      exact hbehind.left_eq

/-- A stream makes no call panic exactly if no object on the way declares more bytes than a buffer
may have. -/
theorem neverPanics_iff (s : ByteStream) : NeverPanics s ↔ BuffersFit s.bytes := by
  constructor
  · intro h hasProperties r hstart
    obtain ⟨n, rfl, rfl⟩ := hstart.exists_afterObjects
    by_contra hlarge
    obtain ⟨m, hm⟩ := readObject_panics_iff.mpr (Bool.eq_true_of_not_eq_false hlarge)
    exact h.object n m hm
  · intro hfit
    constructor
    · intro m
      have hend := subgroupHeader_ends s
      unfold readSubgroupHeader
      simp only [new]
      generalize subgroupHeader s = o at hend
      cases hend with
      | header | refused | short => simp
    · intro n m hm
      have hsmall := ((atStart_readSubgroupHeader s).afterObjects hfit n).fits hfit
      have hlarge := readObject_panics_iff.mp ⟨m, hm⟩
      rw [hsmall] at hlarge
      cases hlarge

/-- A header, and an object that declares a payload of `u64::MAX` bytes. -/
def hugePayload : ByteStream where
  bytes := [0x10, 0x07, 0x02, 0x80, 0x00, 0xff, 0xff, 0xff, 0xff, 0xff, 0xff, 0xff, 0xff, 0xff]
  ending := .finished

/-- The first call of `read_object` panics, before any byte of the payload has arrived. -/
theorem not_neverPanics_hugePayload : ¬∀ s, NeverPanics s := by
  intro h
  exact (h hugePayload).object 0 "capacity overflow" (by decide)

end DataStreamReader

end Moqt.Wire
