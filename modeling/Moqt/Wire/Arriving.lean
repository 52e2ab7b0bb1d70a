import Moqt.Library.Await
import Moqt.Wire.RoundTrip

/-! Messages on streams of which only a front has arrived.  A message that is written within the
limits is read when its last byte is there; until then the read finds too few bytes, whatever the
bytes are that are there. -/

namespace Moqt.Wire

open Library

theorem IsVarint.awaits {v : UInt64} {raw : Bytes} (h : IsVarint v raw) :
    readVarint.Awaits raw (v, raw) where
  takes _ _ hs := returns_readVarint.mpr ⟨h, hs⟩
  starves s hs hlt := by
    refine exists_fails_readExact_iff.mpr ?_
    obtain ⟨first, tail, rfl, hlength⟩ := h.length
    cases hbytes : s.bytes with
    | nil => rfl
    | cons byte rest =>
      rw [hbytes] at hs hlt
      obtain ⟨rfl, -⟩ := List.cons_prefix_cons.mp hs
      simpa [cutVarint, hlength] using hlt

theorem awaits_readMessageFrame {msgType : UInt64} {payload : Bytes}
    (hlen : payload.length ≤ maxPayload) :
    readMessageFrame.Awaits (encodeMessage msgType payload) (encodeMessage msgType payload) := by
  have hcount : bigEndian (lengthBytes payload.length) = payload.length := by
    rw [bigEndian_lengthBytes, Nat.mod_eq_of_lt (by unfold maxPayload at hlen; omega)]
  have hpayload : (Reader.readBuffer (bigEndian (lengthBytes payload.length))).Awaits payload
      payload := by
    rw [hcount]
    exact .readBuffer payload
  have hframe : readMessageFrame.Awaits
      (encodeVarint msgType ++ (lengthBytes payload.length ++ payload))
      (encodeVarint msgType ++ lengthBytes payload.length ++ payload) :=
    (isVarint_encode msgType).awaits.bind
      ((Reader.Awaits.readExact (lengthBytes payload.length)).bind (hpayload.bind_silent (.pure _)))
  rwa [← List.append_assoc, ← encodeMessage_eq] at hframe

/-- A request-stream message within the limits is awaited. -/
theorem RequestMessage.WithinLimits.awaits {m : RequestMessage} {frame : Bytes}
    (h : m.WithinLimits) (hencode : m.encode = .ok frame) : readMessage.Awaits frame m := by
  have htakes := RequestMessage.takes hencode h.payload h.reasonPhrase
  have hparse := RequestMessage.returns_parseRequestMessage hencode htakes.returns
  obtain ⟨payload, rfl, hsize⟩ := RequestMessage.frame_of_encode hencode
  exact (awaits_readMessageFrame (hsize.trans_le h.payload)).bind_silent (.decode hparse)

/-- Where nothing has arrived, there is no message to read. -/
theorem starves_readMessage {s : ByteStream} (hs : s.bytes = []) :
    ∃ e, readMessage.Fails s (.readExact e) := by
  have hlimits : (RequestMessage.requestOk {}).WithinLimits :=
    ⟨trivial, trivial, nofun, by decide⟩
  have hawaits : readMessage.Awaits [7, 0, 1, 0] (.requestOk {}) := hlimits.awaits rfl
  exact hawaits.starves s (hs ▸ List.nil_prefix) (by rw [hs]; decide)

/-- A SETUP within the limits is awaited. -/
theorem SetupMessage.WithinLimits.awaits {m : SetupMessage} {frame : Bytes} (h : m.WithinLimits)
    (hencode : m.encode = .ok frame) : readSetup.Awaits frame m := by
  have hemits := m.emits hencode
  have hread := (hemits.takes h.payload).returns
  rw [h.readBack_eq] at hread
  obtain ⟨payload, rfl, hsize, -⟩ := hemits
  exact (awaits_readMessageFrame (hsize.trans_le h.payload)).bind_silent (.decode hread)

end Moqt.Wire
