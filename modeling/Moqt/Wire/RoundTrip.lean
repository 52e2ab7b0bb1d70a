import Moqt.Wire.Frame

/-! Messages that are read back as they were written: which frames their decoders accept, and the
reading of a stream of frames. -/

namespace Moqt.Wire

open Library Decoder

/-! ### The messages of request streams -/

namespace RequestMessage

/-- What the writer of a request stream writes. -/
def encode : RequestMessage → Outcome Bytes
  | .publishNamespace m => m.encode
  | .subscribe m => m.encode
  | .subscribeOk m => m.encode
  | .requestOk m => m.encode
  | .requestError m => .ok m.encode
  | .publishDone m => .ok m.encode

def msgType : RequestMessage → UInt64
  | .publishNamespace _ => MSG_PUBLISH_NAMESPACE
  | .subscribe _ => MSG_SUBSCRIBE
  | .subscribeOk _ => MSG_SUBSCRIBE_OK
  | .requestOk _ => MSG_REQUEST_OK
  | .requestError _ => MSG_REQUEST_ERROR
  | .publishDone _ => MSG_PUBLISH_DONE

/-- The decoder of the messages of the same kind. -/
def matchingDecode : RequestMessage → Decoder RequestMessage
  | .publishNamespace _ => publishNamespace <$> PublishNamespaceMessage.decode
  | .subscribe _ => subscribe <$> SubscribeMessage.decode
  | .subscribeOk _ => subscribeOk <$> SubscribeOkMessage.decode
  | .requestOk _ => requestOk <$> RequestOkMessage.decode
  | .requestError _ => requestError <$> RequestErrorMessage.decode
  | .publishDone _ => publishDone <$> PublishDoneMessage.decode

/-- The bytes of the fields. -/
def payloadSize : RequestMessage → Nat
  | .publishNamespace m => m.payloadSize
  | .subscribe m => m.payloadSize
  | .subscribeOk m => m.payloadSize
  | .requestOk _ => parametersSize []
  | .requestError m => m.payloadSize
  | .publishDone m => m.payloadSize

def reasonPhrase : RequestMessage → Option ReasonPhrase
  | .requestError m => some m.reasonPhrase
  | .publishDone m => some m.reasonPhrase
  | _ => none

/-- A reason phrase, if there is one, is no longer than the decoder allows. -/
def ReasonFits (m : RequestMessage) : Prop :=
  ∀ rp, m.reasonPhrase = some rp → rp.value.length ≤ MAX_LENGTH.toNat

variable {m : RequestMessage} {frame : Bytes}

theorem frame_of_encode (h : m.encode = .ok frame) :
    ∃ payload, frame = encodeMessage m.msgType payload ∧ payload.length = m.payloadSize := by
  cases m with
  | publishNamespace m => exact (m.emits h).imp fun _ h => ⟨h.1, h.2.1⟩
  | subscribe m => exact (m.emits h).imp fun _ h => ⟨h.1, h.2.1⟩
  | subscribeOk m => exact (m.emits h).imp fun _ h => ⟨h.1, h.2.1⟩
  | requestOk m => exact (m.emits h).imp fun _ h => ⟨h.1, h.2.1⟩
  | requestError m =>
    obtain rfl := Outcome.ok.inj h
    exact ⟨_, rfl, length_reasonPayload⟩
  | publishDone m =>
    obtain rfl := Outcome.ok.inj h
    exact ⟨_, rfl, length_reasonPayload⟩

theorem hasTrueLength_iff (h : m.encode = .ok frame) :
    HasTrueLength frame ↔ m.payloadSize ≤ maxPayload := by
  obtain ⟨payload, rfl, hsize⟩ := frame_of_encode h
  rw [hasTrueLength_encodeMessage, hsize]

/-- What is written within the limits is taken by the decoder of its kind. -/
theorem takes (h : m.encode = .ok frame) (hsize : m.payloadSize ≤ maxPayload)
    (hreason : m.ReasonFits) : m.matchingDecode.Takes frame m := by
  cases m with
  | publishNamespace m => exact ((m.emits h).takes hsize).bind_pure
  | subscribe m => exact ((m.emits h).takes hsize).bind_pure
  | subscribeOk m => exact ((m.emits h).takes hsize).bind_pure
  | requestOk m => exact ((m.emits h).takes hsize).bind_pure
  | requestError m =>
    obtain rfl := Outcome.ok.inj h
    exact (m.takes hsize (hreason _ rfl)).bind_pure
  | publishDone m =>
    obtain rfl := Outcome.ok.inj h
    exact (m.takes hsize (hreason _ rfl)).bind_pure

/-- A frame with its true length is refused for one reason only. -/
theorem reasonFits_of_returns (h : m.encode = .ok frame) (hsize : m.payloadSize ≤ maxPayload)
    {m' : RequestMessage} (hreturns : m.matchingDecode.Returns frame m' []) : m.ReasonFits := by
  cases m with
  | publishNamespace | subscribe | subscribeOk | requestOk => nofun
  | requestError m =>
    obtain rfl := Outcome.ok.inj h
    obtain ⟨e, he, -⟩ := returns_map.mp hreturns
    rintro rp ⟨⟩
    exact (decodeReasonFrame_iff (length_reasonPayload.trans_le hsize)).mp ⟨e, he⟩
  | publishDone m =>
    obtain rfl := Outcome.ok.inj h
    obtain ⟨e, he, -⟩ := returns_map.mp hreturns
    rintro rp ⟨⟩
    exact (decodeReasonFrame_iff (length_reasonPayload.trans_le hsize)).mp ⟨e, he⟩

/-- The parser picks the decoder by the type in front of the frame. -/
theorem returns_parse_iff {b r : Bytes} {m : RequestMessage} :
    parseRequestMessage.Returns b m r ↔
      ∃ msgType left, decodeVarint.Returns b msgType left ∧
        (decodeRequest msgType).Returns b m r := by
  have hparse : parseRequestMessage.Returns b m r ↔
      (onSlice b decodeVarint >>= fun p => decodeRequest p.1).Returns b m r := by
    unfold Decoder.Returns parseRequestMessage
    exact Iff.rfl
  rw [hparse, returns_bind]
  constructor
  · rintro ⟨⟨msgType, left⟩, mid, hslice, hrequest⟩
    obtain ⟨htype, rfl⟩ := returns_onSlice.mp hslice
    exact ⟨msgType, left, htype, hrequest⟩
  · rintro ⟨msgType, left, htype, hrequest⟩
    exact ⟨(msgType, left), b, returns_onSlice.mpr ⟨htype, rfl⟩, hrequest⟩

theorem returns_parseRequestMessage {m' : RequestMessage} (h : m.encode = .ok frame)
    (hreturns : m.matchingDecode.Returns frame m' []) :
    parseRequestMessage.Returns frame m' [] := by
  obtain ⟨payload, hframe, -⟩ := frame_of_encode h
  have htype : decodeVarint.Returns frame m.msgType (lengthBytes payload.length ++ payload) := by
    rw [hframe, encodeMessage_eq, List.append_assoc]
    exact decodeVarint_encode _ _
  have hdecode : decodeRequest m.msgType = m.matchingDecode := by
    cases m <;> rfl
  refine returns_parse_iff.mpr ⟨m.msgType, _, htype, ?_⟩
  rwa [hdecode]

end RequestMessage

/-! ### All messages -/

/-- A message of a control stream or of a request stream. -/
inductive ControlMessage where
  | setup (message : SetupMessage)
  | request (message : RequestMessage)
deriving DecidableEq, Repr

namespace ControlMessage

def encode : ControlMessage → Outcome Bytes
  | .setup m => m.encode
  | .request m => m.encode

def matchingDecode : ControlMessage → Decoder ControlMessage
  | .setup _ => setup <$> SetupMessage.decode
  | .request m => request <$> m.matchingDecode

def payloadSize : ControlMessage → Nat
  | .setup m => m.payloadSize
  | .request m => m.payloadSize

def ReasonFits : ControlMessage → Prop
  | .setup _ => True
  | .request m => m.ReasonFits

/-- A frame whose length field tells the true length, and which the decoder of the message's kind
accepts and takes to its last byte. -/
structure Framed (m : ControlMessage) (frame : Bytes) : Prop where
  length : HasTrueLength frame
  accepted : ∃ m', m.matchingDecode.Returns frame m' []

/-- A message that is encoded without an error gives a frame that is accepted exactly if its fields
fit the length field and its reason phrase fits the decoder's limit: no encoder checks either. -/
theorem framed_iff (m : ControlMessage) (frame : Bytes) (h : m.encode = .ok frame) :
    m.Framed frame ↔ m.payloadSize ≤ maxPayload ∧ m.ReasonFits := by
  cases m with
  | setup m =>
    have hemits := m.emits h
    constructor
    · intro hframed
      exact ⟨hemits.hasTrueLength_iff.mp hframed.length, trivial⟩
    · rintro ⟨hsize, -⟩
      exact ⟨hemits.hasTrueLength_iff.mpr hsize, _,
        returns_map.mpr ⟨_, (hemits.takes hsize).returns, rfl⟩⟩
  | request m =>
    constructor
    · rintro ⟨hlength, m', hreturns⟩
      have hsize := (RequestMessage.hasTrueLength_iff h).mp hlength
      obtain ⟨r, hr, -⟩ := returns_map.mp hreturns
      exact ⟨hsize, RequestMessage.reasonFits_of_returns h hsize hr⟩
    · rintro ⟨hsize, hreason⟩
      exact ⟨(RequestMessage.hasTrueLength_iff h).mpr hsize, _,
        returns_map.mpr ⟨m, (RequestMessage.takes h hsize hreason).returns, rfl⟩⟩

end ControlMessage

/-- A REQUEST_ERROR whose reason phrase has one byte more than the decoder allows. -/
def longReason : RequestErrorMessage := ⟨0, 0, ⟨List.replicate 1025 0x61⟩⟩

theorem length_longReason : longReason.reasonPhrase.value.length = 1025 := List.length_replicate

/-- It is encoded without an error, and refused. -/
theorem not_framed_longReason :
    ¬∀ (m : ControlMessage) frame, m.encode = .ok frame → m.Framed frame := by
  intro h
  obtain ⟨-, m', hreturns⟩ := h (.request (.requestError longReason)) _ rfl
  obtain ⟨r, hr, -⟩ := returns_map.mp hreturns
  have hsize : (RequestMessage.requestError longReason).payloadSize ≤ maxPayload := by
    show _ + blockSize longReason.reasonPhrase.value ≤ _
    rw [blockSize, length_longReason]
    decide
  have hreason := RequestMessage.reasonFits_of_returns rfl hsize hr longReason.reasonPhrase rfl
  rw [length_longReason] at hreason
  exact absurd hreason (by decide)

/-- A REQUEST_OK is short enough. -/
theorem framed_requestOk : ControlMessage.Framed (.request (.requestOk {})) [0x07, 0, 1, 0] := by
  refine (ControlMessage.framed_iff (.request (.requestOk {})) [0x07, 0, 1, 0] rfl).mpr
    ⟨by decide, ?_⟩
  rintro rp ⟨⟩

/-! ### Streams of messages -/

/-- The fields of a namespace that the encoder accepts. -/
structure TrackNamespace.Valid (ns : TrackNamespace) : Prop where
  count : ns.fields.length ≤ MAX_FIELDS.toNat
  nonempty : ∀ field ∈ ns.fields, field ≠ []

/-- The limits on the fields of a message and on its payload. -/
structure RequestMessage.WithinLimits (m : RequestMessage) : Prop where
  trackNamespace : match m with
    | .publishNamespace m => m.trackNamespace.Valid
    | .subscribe m => m.trackNamespace.Valid
    | _ => True
  parameters : match m with
    | .subscribe m => Encodable m.parameters
    | .subscribeOk m => Encodable m.parameters
    | _ => True
  reasonPhrase : m.ReasonFits
  payload : m.payloadSize ≤ maxPayload

/-- The limits on setup options: the types do not decrease, a value is of the kind that its type
asks for and not too long, and the types of a path and an authority are not written as unknown. -/
structure SetupMessage.WithinLimits (m : SetupMessage) : Prop where
  sorted : (m.setupOptions.map fun o => o.toKeyValuePair.typeId).Pairwise (· ≤ ·)
  kinds : ∀ o ∈ m.setupOptions, o.toKeyValuePair.kindFits
  values : ∀ o ∈ m.setupOptions, ∀ value, o.toKeyValuePair.value = .bytes value →
    value.length ≤ MAX_VALUE_LENGTH.toNat
  named : ∀ typeId value, SetupOption.unknown typeId value ∈ m.setupOptions →
    typeId ≠ OPTION_PATH ∧ typeId ≠ OPTION_AUTHORITY
  payload : m.payloadSize ≤ maxPayload

theorem RequestMessage.WithinLimits.exists_encode {m : RequestMessage} (h : m.WithinLimits) :
    ∃ frame, m.encode = .ok frame := by
  cases m with
  | publishNamespace m =>
    obtain ⟨ns, hns⟩ := exists_encodeTrackNamespace h.trackNamespace.count
      h.trackNamespace.nonempty
    obtain ⟨params, hparams⟩ : ∃ params, encodeParameters [] = .ok params :=
      exists_encodeParameters ⟨.nil, by simp⟩
    exact ⟨_, ok_bind.mpr ⟨ns, hns, ok_bind.mpr ⟨params, hparams, rfl⟩⟩⟩
  | subscribe m =>
    obtain ⟨ns, hns⟩ := exists_encodeTrackNamespace h.trackNamespace.count
      h.trackNamespace.nonempty
    obtain ⟨params, hparams⟩ := exists_encodeParameters h.parameters
    exact ⟨_, ok_bind.mpr ⟨ns, hns, ok_bind.mpr ⟨params, hparams, rfl⟩⟩⟩
  | subscribeOk m =>
    obtain ⟨params, hparams⟩ := exists_encodeParameters h.parameters
    exact ⟨_, ok_bind.mpr ⟨params, hparams, rfl⟩⟩
  | requestOk m => exact ⟨_, rfl⟩
  | requestError m => exact ⟨_, rfl⟩
  | publishDone m => exact ⟨_, rfl⟩

theorem SetupMessage.WithinLimits.exists_encode {m : SetupMessage} (h : m.WithinLimits) :
    ∃ frame, m.encode = .ok frame := by
  obtain ⟨payload, hpayload⟩ :
      ∃ w, encodeKeyValuePairs (m.setupOptions.map SetupOption.toKeyValuePair) = .ok w := by
    refine exists_encodeKeyValuePairsFrom 0 (fun _ _ => UInt64.zero_le) ?_ ?_
    · simpa [List.map_map, Function.comp_def] using h.sorted
    · simpa [List.forall_mem_map] using h.kinds
  exact ⟨_, ok_bind.mpr ⟨payload, hpayload, rfl⟩⟩

theorem SetupMessage.WithinLimits.readBack_eq {m : SetupMessage} (h : m.WithinLimits) :
    m.readBack = m := by
  obtain ⟨options⟩ := m
  have hoptions : ∀ o ∈ options, o.readBack = o := by
    intro o ho
    cases o with
    | path value | authority value => rfl
    | unknown typeId value =>
      obtain ⟨hpath, hauthority⟩ := h.named typeId value ho
      simp [SetupOption.readBack, SetupOption.toKeyValuePair, SetupOption.ofKeyValuePair, hpath,
        hauthority]
  show SetupMessage.mk (options.map (·.readBack)) = ⟨options⟩
  rw [List.map_congr_left hoptions, List.map_id']

/-- `read_message_frame` takes a frame with its true length off the stream. -/
theorem returns_readMessageFrame {msgType : UInt64} {payload : Bytes} {s t : ByteStream}
    (hlen : payload.length ≤ maxPayload) (h : s.Splits (encodeMessage msgType payload) t) :
    readMessageFrame.Returns s (encodeMessage msgType payload) t := by
  have hcount : bigEndian (lengthBytes payload.length) = payload.length := by
    rw [bigEndian_lengthBytes, Nat.mod_eq_of_lt (by unfold maxPayload at hlen; omega)]
  rw [encodeMessage_eq] at h ⊢
  obtain ⟨u, hfront, hpayload⟩ := ByteStream.splits_append.mp h
  obtain ⟨v, htype, hlenBytes⟩ := ByteStream.splits_append.mp hfront
  refine Reader.returns_bind.mpr ⟨_, v, returns_readVarint.mpr ⟨isVarint_encode _, htype⟩, ?_⟩
  refine Reader.returns_bind.mpr ⟨_, u, Reader.returns_readExact.mpr ⟨rfl, hlenBytes⟩, ?_⟩
  refine Reader.returns_bind.mpr ⟨payload, t, ?_, Reader.returns_pure.mpr ⟨rfl, rfl⟩⟩
  exact Reader.returns_readBuffer.mpr ⟨hcount.symm, hpayload⟩

/-- A message that is written within the limits is read back, and the stream is left behind it. -/
theorem RequestMessage.WithinLimits.returns_readMessage {m : RequestMessage} {frame : Bytes}
    {s t : ByteStream} (h : m.WithinLimits) (hencode : m.encode = .ok frame)
    (hs : s.Splits frame t) : readMessage.Returns s m t := by
  have htakes := RequestMessage.takes hencode h.payload h.reasonPhrase
  have hparse := RequestMessage.returns_parseRequestMessage hencode htakes.returns
  obtain ⟨payload, rfl, hsize⟩ := RequestMessage.frame_of_encode hencode
  have hframe := returns_readMessageFrame (hsize.trans_le h.payload) hs
  exact Reader.returns_bind.mpr ⟨_, t, hframe, Reader.returns_decode.mpr ⟨⟨[], hparse⟩, rfl⟩⟩

/-- Reads of `n` messages of a request stream, one after the other. -/
def readMessages : (n : Nat) → Reader (List RequestMessage)
  | 0 => pure []
  | n + 1 => do
    let message ← readMessage
    let messages ← readMessages n
    return message :: messages

/-- `ControlStreamReader::read_setup` -/
def readSetup : Reader SetupMessage := do
  let bytes ← readMessageFrame
  Reader.decode SetupMessage.decode bytes

theorem returns_readMessages {ms : List RequestMessage} (h : ∀ m ∈ ms, m.WithinLimits) :
    ∃ frames, List.Forall₂ (fun m frame => m.encode = .ok frame) ms frames ∧
      ∀ s t, s.Splits frames.flatten t → (readMessages ms.length).Returns s ms t := by
  induction ms with
  | nil =>
    refine ⟨[], .nil, fun s t hs => ?_⟩
    exact Reader.returns_pure.mpr ⟨rfl, ByteStream.eq_iff.mpr hs⟩
  | cons m ms ih =>
    obtain ⟨frame, hframe⟩ := (h m List.mem_cons_self).exists_encode
    obtain ⟨frames, hframes, hread⟩ := ih fun q hq => h q (List.mem_cons_of_mem _ hq)
    refine ⟨frame :: frames, .cons hframe hframes, fun s t hs => ?_⟩
    obtain ⟨u, hfirst, hrest⟩ := ByteStream.splits_append.mp hs
    have hm := (h m List.mem_cons_self).returns_readMessage hframe hfirst
    exact Reader.returns_bind.mpr ⟨m, u, hm, Reader.returns_bind.mpr
      ⟨ms, t, hread u t hrest, Reader.returns_pure.mpr ⟨rfl, rfl⟩⟩⟩

theorem SetupMessage.WithinLimits.returns_readSetup {m : SetupMessage} {frame : Bytes}
    {s t : ByteStream} (h : m.WithinLimits) (hencode : m.encode = .ok frame)
    (hs : s.Splits frame t) : readSetup.Returns s m t := by
  have hemits := m.emits hencode
  have hread := (hemits.takes h.payload).returns
  rw [h.readBack_eq] at hread
  obtain ⟨payload, rfl, hsize, -⟩ := hemits
  have hframe := returns_readMessageFrame (hsize.trans_le h.payload) hs
  exact Reader.returns_bind.mpr ⟨_, t, hframe, Reader.returns_decode.mpr ⟨⟨[], hread⟩, rfl⟩⟩

/-- Messages within the limits are encoded, and a stream that carries their frames is read back as
the same messages, to its last byte; and so is a SETUP. -/
theorem streams_are_read_back :
    (∀ ms : List RequestMessage, (∀ m ∈ ms, m.WithinLimits) →
      ∃ frames, List.Forall₂ (fun m frame => m.encode = .ok frame) ms frames ∧
        ∀ s : ByteStream, s.bytes = frames.flatten →
          ∃ t, (readMessages ms.length).Returns s ms t ∧ t.bytes = []) ∧
    ∀ m : SetupMessage, m.WithinLimits → ∃ frame, m.encode = .ok frame ∧
      SetupMessage.decode.Returns frame m [] ∧
        ∀ s : ByteStream, s.bytes = frame → ∃ t, readSetup.Returns s m t ∧ t.bytes = [] := by
  have whole : ∀ (s : ByteStream) w, s.bytes = w → ∃ t, s.Splits w t ∧ t.bytes = [] := by
    intro s w hw
    exact ByteStream.exists_splits (hw.trans (List.append_nil w).symm)
  constructor
  · intro ms hms
    obtain ⟨frames, hframes, hread⟩ := returns_readMessages hms
    refine ⟨frames, hframes, fun s hs => ?_⟩
    obtain ⟨t, hsplits, ht⟩ := whole s _ hs
    exact ⟨t, hread s t hsplits, ht⟩
  · intro m hm
    obtain ⟨frame, hframe⟩ := hm.exists_encode
    have hdecode := ((m.emits hframe).takes hm.payload).returns
    rw [hm.readBack_eq] at hdecode
    refine ⟨frame, hframe, hdecode, fun s hs => ?_⟩
    obtain ⟨t, hsplits, ht⟩ := whole s _ hs
    exact ⟨t, hm.returns_readSetup hframe hsplits, ht⟩

/-- A REQUEST_OK and a SUBSCRIBE_OK behind it. -/
theorem stream_of_two_is_read_back :
    ∃ frames, List.Forall₂ (fun m frame => m.encode = .ok frame)
      [RequestMessage.requestOk {}, .subscribeOk ⟨7, [.forward 1], [0x61]⟩] frames ∧
      ∀ s : ByteStream, s.bytes = frames.flatten →
        ∃ t, (readMessages 2).Returns s [.requestOk {}, .subscribeOk ⟨7, [.forward 1], [0x61]⟩] t ∧
          t.bytes = [] := by
  refine streams_are_read_back.1 _ fun m hm => ?_
  rcases List.mem_pair.mp hm with rfl | rfl
  · exact ⟨trivial, trivial, nofun, by decide⟩
  · exact ⟨trivial, ⟨by decide, by simp⟩, nofun, by decide⟩

end Moqt.Wire
