import Moqt.Wire.DataStreamReader
import Moqt.Wire.Exact

/-! Formats that the code reads twice: off a stream, piece by piece, and off a slice.  The readers
find out from the first bytes how many more they need, and decode what they have collected; they
take and leave what the decoders take and leave. -/

namespace Moqt.Wire

open Library

/-! ### Varints and messages -/

/-- A varint and a message are taken off the stream as they are taken off a slice, and what is
returned of a message is its bytes. -/
structure FramingAgrees (s : ByteStream) : Prop where
  varint : readVarint.Agrees decodeVarint s
  frame_iff : ∀ rest, (∃ frame t, readMessageFrame.Returns s frame t ∧ t.bytes = rest) ↔
    ∃ message, decodeMessage.Returns s.bytes message rest
  frame : ∀ frame t, readMessageFrame.Returns s frame t → s.bytes = frame ++ t.bytes ∧
    ∃ message, decodeMessage.Returns s.bytes message t.bytes ∧
      decodeMessage.Returns frame message []

theorem framing_agrees (s : ByteStream) : FramingAgrees s where
  varint := Reader.agrees_of_reads (fun _ _ _ _ => returns_readVarint) decodeVarint_reads s
  frame_iff := by
    refine readMessageFrame_reads.leaves_iff decodeMessage_reads (fun w => ?_) s
    constructor
    · rintro ⟨_, rfl, msgType, payload, hframe⟩
      exact ⟨(msgType, payload), hframe⟩
    · rintro ⟨⟨msgType, payload⟩, hframe⟩
      exact ⟨w, rfl, msgType, payload, hframe⟩
  frame := by
    intro frame t h
    obtain ⟨_, ⟨rfl, msgType, payload, hframe⟩, hsplit⟩ := (readMessageFrame_reads s frame t).mp h
    have htakes := decodeMessage_reads.takes (a := (msgType, payload)) hframe
    refine ⟨hsplit.1, (msgType, payload), ?_, htakes.returns⟩
    rw [hsplit.1]
    exact htakes t.bytes

/-! ### Data streams -/

namespace DataStreamReader

theorem readSubgroupHeader_ok {r r' : DataStreamReader} {header : SubgroupHeader} {raw : Bytes} :
    r.readSubgroupHeader = (.ok (header, raw), r') ↔
      (∃ streamType, SubgroupHeader.Format IsVarint streamType header raw) ∧
        r.stream.Splits raw r'.stream ∧ r'.hasProperties = header.hasProperties := by
  rw [← and_assoc, ← returns_readSubgroupHeader, ← toReader_subgroupHeader, Method.toReader_returns,
    readSubgroupHeader]
  obtain ⟨stream, hasProperties⟩ := r'
  cases subgroupHeader r.stream with
  | ok p t =>
    obtain ⟨header', raw'⟩ := p
    simp only [Prod.mk.injEq, Except.ok.injEq, EStateM.Result.ok.injEq, mk.injEq]
    constructor
    · rintro ⟨⟨rfl, rfl⟩, rfl, rfl⟩
      exact ⟨⟨⟨rfl, rfl⟩, rfl⟩, rfl⟩
    · rintro ⟨⟨⟨rfl, rfl⟩, rfl⟩, rfl⟩
      exact ⟨⟨rfl, rfl⟩, rfl, rfl⟩
  | error e t => simp

theorem readObject_some {r r' : DataStreamReader} {header : ObjectHeader} {payload raw : Bytes} :
    r.readObject = (.ok (some (header, payload, raw)), r') ↔
      HeaderFormat r.hasProperties header raw ∧ payload.length = header.payloadLength.toNat ∧
        r.stream.Splits (raw ++ payload) r'.stream ∧ r'.hasProperties = r.hasProperties := by
  rw [← and_assoc, ← and_assoc, and_assoc (a := HeaderFormat _ _ _), ← returns_readObject,
    ← toReader_object, Method.toReader_returns, readObject]
  obtain ⟨stream, hasProperties⟩ := r'
  cases object r.hasProperties r.stream with
  | ok o t =>
    simp only [Prod.mk.injEq, Except.ok.injEq, EStateM.Result.ok.injEq, mk.injEq]
    constructor
    · rintro ⟨rfl, rfl, rfl⟩
      exact ⟨⟨rfl, rfl⟩, rfl⟩
    · rintro ⟨⟨rfl, rfl⟩, rfl⟩
      exact ⟨rfl, rfl, rfl⟩
  | error e t => simp

/-- The header is taken off the stream as it is taken off a slice, and its properties bit is
kept. -/
structure HeaderAgrees (r : DataStreamReader) : Prop where
  returns_iff : ∀ header rest,
    (∃ raw r', r.readSubgroupHeader = (.ok (header, raw), r') ∧ r'.stream.bytes = rest) ↔
      SubgroupHeader.decode.Returns r.stream.bytes header rest
  taken : ∀ header raw r', r.readSubgroupHeader = (.ok (header, raw), r') →
    r.stream.bytes = raw ++ r'.stream.bytes ∧ r'.hasProperties = header.hasProperties

theorem header_agrees (r : DataStreamReader) : r.HeaderAgrees where
  returns_iff := by
    intro header rest
    simp only [readSubgroupHeader_ok, SubgroupHeader.returns_decode]
    constructor
    · rintro ⟨raw, r', ⟨⟨streamType, hformat⟩, hsplit, -⟩, rfl⟩
      exact ⟨streamType, raw, hformat, hsplit.1⟩
    · rintro ⟨streamType, raw, hformat, hbytes⟩
      obtain ⟨t, hsplit, ht⟩ := ByteStream.exists_splits hbytes
      exact ⟨raw, ⟨t, header.hasProperties⟩, ⟨⟨streamType, hformat⟩, hsplit, rfl⟩, ht⟩
  taken := by
    intro header raw r' h
    obtain ⟨-, hsplit, hproperties⟩ := readSubgroupHeader_ok.mp h
    exact ⟨hsplit.1, hproperties⟩

/-- An object is taken off the stream exactly if its header is taken off a slice with the same
bytes and its payload is there; what is returned of it are its bytes. -/
structure ObjectAgrees (r : DataStreamReader) : Prop where
  returns_iff : ∀ header payload rest,
    (∃ raw r', r.readObject = (.ok (some (header, payload, raw)), r') ∧ r'.stream.bytes = rest) ↔
      (ObjectHeader.decode r.hasProperties).Returns r.stream.bytes header (payload ++ rest) ∧
        payload.length = header.payloadLength.toNat
  taken : ∀ header payload raw r', r.readObject = (.ok (some (header, payload, raw)), r') →
    r.stream.bytes = raw ++ payload ++ r'.stream.bytes ∧
      (ObjectHeader.decode r.hasProperties).Returns raw header [] ∧
      payload.length = header.payloadLength.toNat

/-- No length needs to be ruled out: a payload that is there fits into a buffer. -/
theorem object_agrees (r : DataStreamReader) : r.ObjectAgrees where
  returns_iff := by
    intro header payload rest
    simp only [readObject_some, ObjectHeader.returns_decode]
    constructor
    · rintro ⟨raw, r', ⟨hformat, hlength, hsplit, -⟩, rfl⟩
      exact ⟨⟨raw, hformat, by rw [hsplit.1, List.append_assoc]⟩, hlength⟩
    · rintro ⟨⟨raw, hformat, hbytes⟩, hlength⟩
      rw [← List.append_assoc] at hbytes
      obtain ⟨t, hsplit, ht⟩ := ByteStream.exists_splits hbytes
      exact ⟨raw, ⟨t, r.hasProperties⟩, ⟨hformat, hlength, hsplit, rfl⟩, ht⟩
  taken := by
    intro header payload raw r' h
    obtain ⟨hformat, hlength, hsplit, -⟩ := readObject_some.mp h
    refine ⟨hsplit.1, ?_, hlength⟩
    exact ObjectHeader.returns_decode.mpr ⟨raw, hformat, (List.append_nil raw).symm⟩

end DataStreamReader

end Moqt.Wire
