import Moqt.Library.Stream
import Moqt.Wire.Message
import Moqt.Wire.SubgroupHeader

/-! Reading varints, messages and headers of data streams from a stream.  A reader takes exactly the
bytes of what it returns, so that the next one starts behind them. -/

namespace Moqt.Wire

open Library

/-- `read_varint`: the value and its bytes. -/
def readVarint : Reader (UInt64 × Bytes) := do
  let first ← Reader.readExact 1
  let totalLen ← Reader.ofOutcome (varintByteLength (first.headD 0))
  let rest ← Reader.readBuffer (totalLen - 1)
  let raw := first ++ rest
  let value ← Reader.decode decodeVarint raw
  return (value, raw)

/-- The bytes end before the first varint does. -/
def cutVarint : Bytes → Bool
  | [] => true
  | first :: tail =>
    match varintByteLength first with
    | .ok len => tail.length + 1 < len
    | _ => false

/-- A varint is taken from the front of the stream. -/
theorem returns_readVarint {s t : ByteStream} {v : UInt64} {raw : Bytes} :
    readVarint.Returns s (v, raw) t ↔ IsVarint v raw ∧ s.Splits raw t := by
  simp only [readVarint, Reader.returns_bind, Reader.returns_readExact, Reader.returns_readBuffer,
    Reader.returns_ofOutcome, Reader.returns_decode, Reader.returns_pure, Prod.mk.injEq]
  constructor
  · rintro ⟨_, mid, ⟨hone, hfirst⟩, len, _, ⟨hlength, rfl⟩, tail, _, ⟨hlen, hsplit⟩, _, _,
      ⟨⟨r, hdecode⟩, rfl⟩, ⟨rfl, rfl⟩, rfl⟩
    obtain ⟨first, rfl⟩ := List.length_eq_one_iff.mp hone
    obtain rfl : len = tail.length + 1 := by
      have hpos := (varintBits_le hlength).1
      omega
    obtain ⟨v', hv'⟩ := exists_isVarint hlength
    obtain ⟨rfl, rfl⟩ := hdecode.unique hv'
    exact ⟨hv', hfirst.trans hsplit⟩
  · rintro ⟨hv, hsplit⟩
    obtain ⟨first, tail, rfl, hlength⟩ := hv.length
    obtain ⟨mid, hfirst, hrest⟩ := ByteStream.exists_splits (a := [first]) hsplit.1
    exact ⟨[first], mid, ⟨rfl, hfirst⟩, _, mid, ⟨hlength, rfl⟩, tail, t,
      ⟨by simp, hrest, hfirst.2.symm.trans hsplit.2⟩, v, t, ⟨⟨[], hv⟩, rfl⟩, ⟨rfl, rfl⟩, rfl⟩

theorem not_cutVarint_of_isVarint {v : UInt64} {raw : Bytes} (h : IsVarint v raw) (rest : Bytes) :
    cutVarint (raw ++ rest) = false := by
  obtain ⟨first, tail, rfl, hlength⟩ := h.length
  simp [cutVarint, hlength]

theorem varintByteLength_ne_panic (first : UInt8) (m : String) :
    varintByteLength first ≠ .panic m := by
  unfold varintByteLength
  repeat' split
  all_goals simp

/-- A read of a varint fails where the stream ends within it, or at the code point that has no
length. -/
theorem fails_readVarint {s : ByteStream} {e : Failure} (h : readVarint.Fails s e) :
    (cutVarint s.bytes = true ∧ ∃ x, e = .readExact x) ∨
      (cutVarint s.bytes = false ∧ ∃ m, e = .error m) := by
  simp only [readVarint, Reader.fails_bind, Reader.fails_readExact, Reader.returns_readExact,
    Reader.fails_ofOutcome, Reader.returns_ofOutcome, Reader.fails_readBuffer,
    Reader.returns_readBuffer, Reader.fails_pure, and_false, exists_false, or_false] at h
  rcases h with ⟨hshort, rfl⟩ | ⟨_, mid, ⟨hone, hfirst⟩, h⟩
  · have hnil : s.bytes = [] := List.eq_nil_of_length_eq_zero (by omega)
    exact .inl ⟨by rw [hnil]; rfl, _, rfl⟩
  obtain ⟨first, rfl⟩ := List.length_eq_one_iff.mp hone
  have hbytes : s.bytes = first :: mid.bytes := hfirst.1
  rw [hbytes]
  rcases h with (⟨m, herr, rfl⟩ | ⟨m, hpanic, rfl⟩) | ⟨len, _, ⟨hlength, rfl⟩, h⟩
  · rw [List.headD_cons] at herr
    exact .inr ⟨by simp [cutVarint, herr], m, rfl⟩
  · exact absurd hpanic (varintByteLength_ne_panic _ m)
  rw [List.headD_cons] at hlength
  rcases h with ⟨hshort, rfl⟩ | ⟨tail, after, ⟨hlen, hsplit⟩, h⟩
  · refine .inl ⟨?_, _, rfl⟩
    simp only [cutVarint, hlength, decide_eq_true_eq]
    omega
  · -- as many bytes as the first one stands for are always a varint
    obtain rfl : len = tail.length + 1 := by
      have hpos := (varintBits_le hlength).1
      omega
    obtain ⟨v, hv⟩ := exists_isVarint hlength
    have hreturns : (Reader.decode decodeVarint ([first] ++ tail)).Returns after v after :=
      Reader.returns_decode.mpr ⟨⟨[], hv⟩, rfl⟩
    exact absurd h hreturns.not_fails

/-- The read fails for want of bytes exactly if the stream ends within the varint. -/
theorem exists_fails_readExact_iff {s : ByteStream} :
    (∃ x, readVarint.Fails s (.readExact x)) ↔ cutVarint s.bytes = true := by
  constructor
  · rintro ⟨x, hx⟩
    rcases fails_readVarint hx with ⟨hcut, -⟩ | ⟨-, m, hm⟩
    · exact hcut
    · cases hm
  · intro hcut
    rcases readVarint.returns_or_fails s with ⟨⟨v, raw⟩, t, hreturns⟩ | ⟨e, he⟩
    · obtain ⟨hv, hsplit⟩ := returns_readVarint.mp hreturns
      rw [hsplit.1, not_cutVarint_of_isVarint hv] at hcut
      cases hcut
    · rcases fails_readVarint he with ⟨-, x, rfl⟩ | ⟨hwhole, -⟩
      · exact ⟨x, he⟩
      · rw [hcut] at hwhole
        cases hwhole

/-! ### Messages -/

/-- `read_message_frame` -/
def readMessageFrame : Reader Bytes := do
  let (_, typeBytes) ← readVarint
  let lenBytes ← Reader.readExact 2
  let payload ← Reader.readBuffer (bigEndian lenBytes)
  return typeBytes ++ lenBytes ++ payload

/-- `RequestStreamReader::read_message` -/
def readMessage : Reader RequestMessage := do
  let bytes ← readMessageFrame
  Reader.decode parseRequestMessage bytes

/-! ### Headers of data streams -/

/-- `read_subgroup_header`: the header and its bytes. -/
def readSubgroupHeader : Reader (SubgroupHeader × Bytes) := do
  let (streamType, typeBytes) ← readVarint
  let (_, aliasBytes) ← readVarint
  let (_, groupBytes) ← readVarint
  let subgroupIdMode := (streamType >>> 1) &&& 0x03
  let subgroupBytes ← Reader.optional (subgroupIdMode == 0x02) (Prod.snd <$> readVarint)
  let priority ← Reader.optional (streamType &&& 0x20 == 0) (Reader.readExact 1)
  let raw := typeBytes ++ aliasBytes ++ groupBytes ++ subgroupBytes ++ priority
  let header ← Reader.decode SubgroupHeader.decode raw
  return (header, raw)

theorem returns_optionalVarint {present : Bool} {s t : ByteStream} {bytes : Bytes} :
    (Reader.optional present (Prod.snd <$> readVarint)).Returns s bytes t ↔
      ∃ v : Option UInt64, v.isSome = present ∧ SubgroupHeader.IsField IsVarint v bytes ∧
        s.Splits bytes t := by
  rw [Reader.returns_optional, Reader.returns_map]
  constructor
  · rintro (⟨rfl, ⟨v, raw⟩, hread, rfl⟩ | ⟨rfl, rfl, rfl⟩)
    · obtain ⟨hv, hsplit⟩ := returns_readVarint.mp hread
      exact ⟨some v, rfl, hv, hsplit⟩
    · exact ⟨none, rfl, rfl, .refl s⟩
  · rintro ⟨v, rfl, hfield, hsplit⟩
    cases v with
    | some v => exact .inl ⟨rfl, (v, bytes), returns_readVarint.mpr ⟨hfield, hsplit⟩, rfl⟩
    | none =>
      obtain rfl := hfield
      exact .inr ⟨rfl, rfl, ByteStream.eq_iff.mpr hsplit⟩

theorem returns_optionalByte {present : Bool} {s t : ByteStream} {bytes : Bytes} :
    (Reader.optional present (Reader.readExact 1)).Returns s bytes t ↔
      ∃ v : Option UInt8, v.isSome = present ∧ bytes = v.toList ∧ s.Splits bytes t := by
  rw [Reader.returns_optional, Reader.returns_readExact]
  constructor
  · rintro (⟨rfl, hone, hsplit⟩ | ⟨rfl, rfl, rfl⟩)
    · obtain ⟨v, rfl⟩ := List.length_eq_one_iff.mp hone
      exact ⟨some v, rfl, rfl, hsplit⟩
    · exact ⟨none, rfl, rfl, .refl s⟩
  · rintro ⟨v, rfl, rfl, hsplit⟩
    cases v with
    | some v => exact .inl ⟨rfl, rfl, hsplit⟩
    | none => exact .inr ⟨rfl, rfl, ByteStream.eq_iff.mpr hsplit⟩

/-- A header is taken from the front of the stream. -/
theorem returns_readSubgroupHeader {s t : ByteStream} {header : SubgroupHeader} {raw : Bytes} :
    readSubgroupHeader.Returns s (header, raw) t ↔
      (∃ streamType, SubgroupHeader.Format IsVarint streamType header raw) ∧ s.Splits raw t := by
  simp only [readSubgroupHeader, Reader.returns_bind, returns_optionalVarint, returns_optionalByte,
    Reader.returns_decode, Reader.returns_pure, Prod.mk.injEq]
  constructor
  · rintro ⟨⟨streamType, typeBytes⟩, s₁, htype, ⟨trackAlias, aliasBytes⟩, s₂, halias,
      ⟨groupId, groupBytes⟩, s₃, hgroup, idBytes, s₄, ⟨id, hid, hfield, hsplitId⟩, _, s₅,
      ⟨priority, hpriority, rfl, hsplitPriority⟩, _, _, ⟨⟨r, hdecode⟩, rfl⟩, ⟨rfl, rfl⟩, rfl⟩
    obtain ⟨htype, hsplitType⟩ := returns_readVarint.mp htype
    obtain ⟨halias, hsplitAlias⟩ := returns_readVarint.mp halias
    obtain ⟨hgroup, hsplitGroup⟩ := returns_readVarint.mp hgroup
    have hfront := htype.returns (aliasBytes ++ groupBytes ++ idBytes ++ priority.toList)
    simp only [← List.append_assoc] at hfront
    have hvalid := (SubgroupHeader.hasType_of_returns hdecode hfront).valid
    -- the fields that were read are those of the header that is decoded from their bytes
    have hformat : SubgroupHeader.Format IsVarint streamType
        ⟨trackAlias, groupId, streamType &&& 0x01 != 0, streamType &&& 0x08 != 0, id, priority⟩
        (typeBytes ++ aliasBytes ++ groupBytes ++ idBytes ++ priority.toList) :=
      .mk ⟨hvalid, rfl, rfl, hid, hpriority⟩ htype halias hgroup hfield
    have hreturns := SubgroupHeader.returns_decode.mpr ⟨_, _, hformat, (List.append_nil _).symm⟩
    obtain ⟨rfl, -⟩ := hdecode.unique hreturns
    exact ⟨⟨streamType, hformat⟩, (((hsplitType.trans hsplitAlias).trans hsplitGroup).trans
      hsplitId).trans hsplitPriority⟩
  · rintro ⟨⟨streamType, hformat⟩, hsplit⟩
    have hdecode := SubgroupHeader.returns_decode.mpr ⟨_, _, hformat, (List.append_nil _).symm⟩
    obtain ⟨htype, typeField, aliasField, groupField, idField⟩ := hformat
    obtain ⟨s₄, hsplit, hpriority⟩ := ByteStream.splits_append.mp hsplit
    obtain ⟨s₃, hsplit, hid⟩ := ByteStream.splits_append.mp hsplit
    obtain ⟨s₂, hsplit, hgroup⟩ := ByteStream.splits_append.mp hsplit
    obtain ⟨s₁, hsplit, halias⟩ := ByteStream.splits_append.mp hsplit
    exact ⟨(streamType, _), s₁, returns_readVarint.mpr ⟨typeField, hsplit⟩, (_, _), s₂,
      returns_readVarint.mpr ⟨aliasField, halias⟩, (_, _), s₃,
      returns_readVarint.mpr ⟨groupField, hgroup⟩, _, s₄, ⟨_, htype.subgroupId, idField, hid⟩, _, t,
      ⟨_, htype.priority, rfl, hpriority⟩, _, t, ⟨⟨[], hdecode⟩, rfl⟩, ⟨rfl, rfl⟩, rfl⟩

end Moqt.Wire
