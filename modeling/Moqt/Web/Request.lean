import Moqt.Relay.Network
import Moqt.Web.PublishDone
import Moqt.Web.StreamReader
import Moqt.Web.Subscribe
import Moqt.Wire.Arriving

/-! The request streams of the browser's publisher.  What it writes are the frames that the Rust
encoder writes for the same messages, and what it waits for is a REQUEST_OK. -/

namespace Moqt.Web

open Library

/-! ### Frames -/

def MSG_REQUEST_ERROR : Nat := 0x05
def MSG_PUBLISH_NAMESPACE : Nat := 0x06
def MSG_REQUEST_OK : Nat := 0x07

structure PublishNamespaceMessage where
  requestId : Nat
  requiredRequestIdDelta : Nat
  trackNamespace : TrackNamespace
  parameters : List MessageParameter
deriving DecidableEq, Repr

/-- The payload that `encodePublishNamespace` builds. -/
def PublishNamespaceMessage.payload (msg : PublishNamespaceMessage) : Bytes :=
  encodeVarint msg.requestId ++ encodeVarint msg.requiredRequestIdDelta ++
    encodeTrackNamespace msg.trackNamespace ++ encodeParameters msg.parameters

def encodePublishNamespace (msg : PublishNamespaceMessage) : Bytes :=
  encodeMessage MSG_PUBLISH_NAMESPACE msg.payload

def encodeSubscribeOk (msg : SubscribeOkMessage) : Bytes :=
  encodeMessage MSG_SUBSCRIBE_OK
    (encodeVarint msg.trackAlias ++ encodeParameters msg.parameters ++
      encodeBlock msg.trackPropertiesRaw)

def encodePublishDone (msg : PublishDoneMessage) : Bytes :=
  encodeMessage MSG_PUBLISH_DONE
    (encodeVarint msg.statusCode ++ encodeVarint msg.streamCount ++
      encodeBlock (utf8 msg.reasonPhrase))

/-! ### Requests -/

def trackNamespaceFrom (fields : List String) : TrackNamespace := ⟨fields.map utf8⟩

/-- The message of `publishNamespace`, for a request ID that has been allocated. -/
def publishNamespaceMessage (requestId : Nat) (ns : List String) : PublishNamespaceMessage where
  requestId
  requiredRequestIdDelta := 0
  trackNamespace := trackNamespaceFrom ns
  parameters := []

/-- What `publishNamespace` writes. -/
def publishNamespaceFrame (requestId : Nat) (ns : List String) : Bytes :=
  encodePublishNamespace (publishNamespaceMessage requestId ns)

/-- What is waited for behind a request: a message of the expected type. -/
def readResponse (expected : Nat) (rejected : String) : ChunkReader Bytes := do
  let frame ← StreamReader.readMessageFrame
  let (msgType, _, _) ← ChunkReader.ofOutcome (decodeMessage frame 0)
  if msgType = MSG_REQUEST_ERROR then
    ChunkReader.ofOutcome (.err rejected)
  else if msgType ≠ expected then
    ChunkReader.ofOutcome
      (.err s!"unexpected response: 0x{String.ofList (Nat.toDigits 16 msgType)}")
  else
    return frame

/-- The wait of `publishNamespace`. -/
def publishNamespaceResponse : ChunkReader Unit := do
  let _ ← readResponse MSG_REQUEST_OK "PUBLISH_NAMESPACE rejected"
  return ()

/-- The wait of `subscribe`, for the alias of the subscription. -/
def subscribeResponse : ChunkReader Nat := do
  let frame ← readResponse MSG_SUBSCRIBE_OK "SUBSCRIBE rejected"
  let ok ← ChunkReader.ofOutcome (decodeSubscribeOk frame)
  return ok.trackAlias

/-- `Subscription.recvPublishDone` -/
def recvPublishDone (replace : Bytes → String) : ChunkReader PublishDoneMessage := do
  let frame ← StreamReader.readMessageFrame
  ChunkReader.ofOutcome (decodePublishDone replace frame)

/-- What `SubscribeRequest.accept` writes. -/
def acceptFrame (trackAlias : Nat) : Bytes :=
  encodeSubscribeOk { trackAlias, parameters := [], trackPropertiesRaw := [] }

/-- What `SubscribeRequest.sendPublishDone` writes. -/
def publishDoneFrame (streamCount : Nat) : Bytes :=
  encodePublishDone { statusCode := 0, streamCount, reasonPhrase := "" }

/-! ### The frames of the Rust encoder -/

theorem toNat_toUInt64 {n : Nat} (h : n < 2 ^ 56) : n.toUInt64.toNat = n :=
  UInt64.toNat_ofNat_of_lt' (h.trans (by decide))

/-- A number that the browser writes as it is. -/
theorem encodeVarint_toUInt64 {n : Nat} (h : n < 2 ^ 56) :
    encodeVarint n = Wire.encodeVarint n.toUInt64 := by
  have hnat := toNat_toUInt64 h
  have heq := encodeVarint_eq (v := n.toUInt64) (by rw [hnat]; exact Nat.ne_of_lt h)
  rwa [hnat] at heq

/-- The limits that the callers of `publishNamespace` have to keep to. -/
structure Publishable (requestId : Nat) (ns : List String) : Prop where
  small : requestId < 2 ^ 56
  count : ns.length ≤ 32
  nonempty : ∀ field ∈ ns, utf8 field ≠ []
  payload : (publishNamespaceMessage requestId ns).payload.length ≤ Wire.maxPayload

/-- The message for the Rust encoder. -/
def wireMessage (requestId : Nat) (ns : List String) : Wire.PublishNamespaceMessage :=
  ⟨requestId.toUInt64, 0, ⟨ns.map utf8⟩⟩

namespace Publishable

variable {requestId : Nat} {ns : List String}

theorem valid (h : Publishable requestId ns) : (wireMessage requestId ns).trackNamespace.Valid where
  count := (List.length_map utf8).trans_le h.count
  nonempty := List.forall_mem_map.mpr h.nonempty

/-- The payload of the browser's frame is that of the Rust encoder's. -/
theorem encode (h : Publishable requestId ns) : (wireMessage requestId ns).encode =
    .ok (Wire.encodeMessage Wire.MSG_PUBLISH_NAMESPACE
      (publishNamespaceMessage requestId ns).payload) := by
  have hsmall : ∀ field ∈ ns.map utf8, field.length < 2 ^ 42 := by
    intro field hmem
    have hfield := length_le_of_mem hmem
    have hpayload := h.payload
    simp only [PublishNamespaceMessage.payload, publishNamespaceMessage, trackNamespaceFrom,
      encodeTrackNamespace, List.length_append, Wire.maxPayload] at hpayload
    omega
  have hfields : Wire.encodeTrackNamespace (wireMessage requestId ns).trackNamespace =
      .ok (encodeTrackNamespace (trackNamespaceFrom ns)) :=
    encodeTrackNamespace_eq h.valid.count h.valid.nonempty hsmall
  have hzero : encodeVarint (0 : Nat) = Wire.encodeVarint 0 := encodeVarint_toUInt64 (by decide)
  have hnone : encodeParameters [] = [0] := by decide
  refine ok_bind.mpr ⟨_, hfields, ok_bind.mpr ⟨[0], rfl, ?_⟩⟩
  rw [ok_pure, PublishNamespaceMessage.payload, publishNamespaceMessage, hzero, hnone,
    encodeVarint_toUInt64 h.small]
  rfl

/-- The browser writes what the Rust encoder writes. -/
theorem encode_frame (h : Publishable requestId ns) :
    (wireMessage requestId ns).encode = .ok (publishNamespaceFrame requestId ns) := by
  have hframe := encodeMessage_eq (show Wire.MSG_PUBLISH_NAMESPACE.toNat ≠ 2 ^ 56 by decide)
    (publishNamespaceMessage requestId ns).payload
  rw [h.encode, ← hframe]
  rfl

/-- The relay takes it for the request that it is, once it is there as a whole. -/
theorem awaits (h : Publishable requestId ns) :
    Relay.requestEvent.Awaits (publishNamespaceFrame requestId ns)
      (.publishNamespace (wireMessage requestId ns)) := by
  have hlimits : (Wire.RequestMessage.publishNamespace
      (wireMessage requestId ns)).WithinLimits := by
    refine ⟨h.valid, trivial, fun rp hrp => ?_, ?_⟩
    · cases hrp
    · have hencode : (Wire.RequestMessage.publishNamespace (wireMessage requestId ns)).encode = _ :=
        h.encode
      obtain ⟨payload, hframe, hsize⟩ := Wire.RequestMessage.frame_of_encode hencode
      have hlength := congrArg List.length hframe
      simp only [Wire.encodeMessage_eq, Wire.RequestMessage.msgType, List.length_append] at hlength
      rw [← hsize, ← Nat.add_left_cancel hlength]
      exact h.payload
  exact (hlimits.awaits h.encode_frame).bind_silent (.pure _)

end Publishable

/-- An empty block, such as an empty reason phrase. -/
theorem encodeBlock_nil : encodeBlock [] = Wire.encodeVarint 0 := by decide

/-- The browser accepts a subscription as the Rust encoder would. -/
theorem encode_acceptFrame {trackAlias : Nat} (h : trackAlias < 2 ^ 56) :
    Wire.SubscribeOkMessage.encode ⟨trackAlias.toUInt64, [], []⟩ =
      .ok (acceptFrame trackAlias) := by
  have hframe := encodeMessage_eq (show Wire.MSG_SUBSCRIBE_OK.toNat ≠ 2 ^ 56 by decide)
    (Wire.encodeVarint trackAlias.toUInt64 ++ [0] ++ Wire.encodeVarint 0 ++ [])
  have hnone : encodeParameters [] = [0] := by decide
  refine ok_bind.mpr ⟨[0], rfl, ?_⟩
  rw [ok_pure, acceptFrame, encodeSubscribeOk, encodeVarint_toUInt64 h, hnone, encodeBlock_nil,
    ← List.append_nil (_ ++ Wire.encodeVarint 0)]
  exact hframe.symm

/-- And it ends it so. -/
theorem encode_publishDoneFrame {streamCount : Nat} (h : streamCount < 2 ^ 56) :
    Wire.PublishDoneMessage.encode ⟨0, streamCount.toUInt64, ⟨[]⟩⟩ =
      publishDoneFrame streamCount := by
  have hframe := encodeMessage_eq (show Wire.MSG_PUBLISH_DONE.toNat ≠ 2 ^ 56 by decide)
    (Wire.encodeVarint 0 ++ Wire.encodeVarint streamCount.toUInt64 ++ Wire.encodeVarint 0)
  have hzero : encodeVarint (0 : Nat) = Wire.encodeVarint 0 := encodeVarint_toUInt64 (by decide)
  have hempty : utf8 "" = [] := by decide
  rw [publishDoneFrame, encodePublishDone, hzero, encodeVarint_toUInt64 h, hempty, encodeBlock_nil]
  exact hframe.symm

/-! ### What is waited for -/

/-- A frame of the Rust encoder. -/
theorem isFrame_encode (msgType : UInt64) {payload : Bytes}
    (h : payload.length ≤ Wire.maxPayload) :
    IsFrame (Wire.encodeVarint msgType) payload [] (Wire.encodeMessage msgType payload) := by
  have hlen := Wire.bigEndian_lengthBytes payload.length
  simp only [Wire.lengthBytes, Wire.bigEndian, List.foldl_cons, List.foldl_nil, Nat.zero_mul,
    Nat.zero_add] at hlen
  unfold Wire.maxPayload at h
  rw [Nat.mod_eq_of_lt (by omega)] at hlen
  refine ⟨isCode_encode msgType, _, _, hlen, ?_⟩
  rw [Wire.encodeMessage_eq, List.append_nil, List.append_assoc]
  rfl

theorem readResponse_reads {expected : Nat} (h : expected ≠ MSG_REQUEST_ERROR)
    (rejected : String) : (readResponse expected rejected).Reads fun frame w => frame = w ∧
      ∃ msgType payload, IsFrame msgType payload [] w ∧ numberOf msgType = expected := by
  refine (StreamReader.readMessageFrame_reads.bind fun frame => (ChunkReader.Reads.ofOutcome _).bind
    fun _ => .ite (.ofOutcome _) (.ite (.ofOutcome _) (.pure frame))).congr fun frame w => ?_
  constructor
  · rintro ⟨_, _, _, ⟨rfl, w₀, payload, hframe⟩, ⟨⟨msgType, _, _⟩, _, _, ⟨hdecode, rfl⟩, hend, rfl⟩,
      rfl⟩
    obtain ⟨w₁, rest, hframe₁, rfl, -⟩ := decodeMessage_iff.mp hdecode
    obtain ⟨rfl, -, -⟩ := hframe.unique hframe₁
    rcases hend with ⟨-, herr, -⟩ | ⟨-, ⟨-, herr, -⟩ | ⟨hok, rfl, rfl⟩⟩
    · cases herr
    · cases herr
    · rw [List.append_nil]
      exact ⟨rfl, w₀, payload, hframe, not_not.mp hok⟩
  · rintro ⟨rfl, msgType, payload, hframe, hnumber⟩
    have hdecode := decodeMessage_iff.mpr ⟨msgType, [], hframe, hnumber, rfl⟩
    exact ⟨frame, frame, [], ⟨rfl, msgType, payload, hframe⟩, ⟨_, [], [], ⟨hdecode, rfl⟩,
      .inr ⟨h, .inr ⟨not_not.mpr rfl, rfl, rfl⟩⟩, rfl⟩, (List.append_nil frame).symm⟩

/-- A REQUEST_ERROR is thrown. -/
theorem readResponse_rejected {expected : Nat} {rejected : String} {r mid : Chunked}
    {frame payload : Bytes} {n : Nat} (h : StreamReader.readMessageFrame r = .ok (frame, mid))
    (hdecode : decodeMessage frame 0 = .ok (MSG_REQUEST_ERROR, payload, n)) :
    readResponse expected rejected r = .err rejected := by
  show Outcome.bind (StreamReader.readMessageFrame r) _ = _
  rw [h]
  show Outcome.bind (ChunkReader.ofOutcome (decodeMessage frame 0) mid) _ = _
  rw [hdecode]
  rfl

/-- A REQUEST_OK is awaited. -/
theorem publishNamespaceResponse_awaits {msgType payload w : Bytes}
    (h : IsFrame msgType payload [] w) (hnumber : numberOf msgType = MSG_REQUEST_OK) :
    publishNamespaceResponse.Awaits w () := by
  refine ((readResponse_reads (by decide) _).bind fun _ => .pure ()).awaits ?_
  exact ⟨w, w, [], ⟨rfl, msgType, payload, h, hnumber⟩, ⟨rfl, rfl⟩, (List.append_nil w).symm⟩

/-- A SUBSCRIBE_OK that the browser reads is awaited. -/
theorem subscribeResponse_awaits {ok : Wire.SubscribeOkMessage} {frame : Bytes}
    (h : ok.encode = .ok frame) (hparameters : ok.parameters = [])
    (hpayload : ok.payloadSize ≤ Wire.maxPayload) (halias : Readable ok.trackAlias) :
    subscribeResponse.Awaits frame ok.trackAlias.toNat := by
  obtain ⟨msg, hdecode, hread, -⟩ := (readsSubscribeOk_iff h).mpr ⟨hparameters, hpayload, halias⟩
  obtain ⟨payload, hframe, hsize⟩ := Wire.RequestMessage.frame_of_encode (m := .subscribeOk ok) h
  refine ((readResponse_reads (by decide) _).bind fun frame =>
    (ChunkReader.Reads.ofOutcome (decodeSubscribeOk frame)).bind fun ok => .pure _).awaits ?_
  have hwhole : IsFrame _ payload [] frame := hframe ▸ isFrame_encode _ (hsize.trans_le hpayload)
  refine ⟨frame, frame, [], ⟨rfl, _, payload, hwhole, ?_⟩, ⟨msg, [], [], ⟨hdecode, rfl⟩,
    ⟨hread, rfl⟩, rfl⟩, (List.append_nil frame).symm⟩
  exact numberOf_encode_iff.mpr (show Readable Wire.MSG_SUBSCRIBE_OK from .inl (by decide))

/-- Where nothing has arrived, there is no message to read. -/
theorem readMessageFrame_starves {r r' : Chunked} {frame : Bytes} (hr : r.bytes = []) :
    StreamReader.readMessageFrame r ≠ .ok (frame, r') := by
  intro hread
  obtain ⟨_, ⟨rfl, _, _, hframe⟩, hbytes, -⟩ := StreamReader.readMessageFrame_reads.sound hread
  rw [hr] at hbytes
  have hlength := hframe.length
  rw [(List.append_eq_nil_iff.mp hbytes.symm).1, List.length_nil] at hlength
  omega

theorem subscribeResponse_starves {r r' : Chunked} {a : Nat} (hr : r.bytes = []) :
    subscribeResponse r ≠ .ok (a, r') := by
  intro hok
  obtain ⟨_, _, hresponse, -⟩ := ChunkReader.bind_ok.mp hok
  obtain ⟨_, _, hread, -⟩ := ChunkReader.bind_ok.mp hresponse
  exact readMessageFrame_starves hr hread

theorem recvPublishDone_starves {replace : Bytes → String} {r r' : Chunked}
    {msg : PublishDoneMessage} (hr : r.bytes = []) : recvPublishDone replace r ≠ .ok (msg, r') := by
  intro hok
  obtain ⟨_, _, hread, -⟩ := ChunkReader.bind_ok.mp hok
  exact readMessageFrame_starves hr hread

/-- A REQUEST_ERROR ends the wait, once it is there as a whole. -/
theorem subscribeResponse_rejected {error : Wire.RequestErrorMessage}
    (h : (Wire.RequestMessage.requestError error).WithinLimits) {r : Chunked}
    (hr : r.bytes <+: error.encode) : subscribeResponse r = .err "SUBSCRIBE rejected" ∨
      r.bytes.length < error.encode.length ∧ ∀ a r', subscribeResponse r ≠ .ok (a, r') := by
  have hwhole : IsFrame _ _ [] error.encode :=
    isFrame_encode Wire.MSG_REQUEST_ERROR (Wire.length_reasonPayload.trans_le h.payload)
  have htype : numberOf (Wire.encodeVarint Wire.MSG_REQUEST_ERROR) = MSG_REQUEST_ERROR :=
    numberOf_encode_iff.mpr (.inl (by decide))
  have hawaits : StreamReader.readMessageFrame.Awaits error.encode error.encode :=
    StreamReader.readMessageFrame_reads.awaits ⟨rfl, _, _, hwhole⟩
  rw [← List.append_nil error.encode] at hr
  rcases hawaits.of_front hr with ⟨mid, hread, -⟩ | ⟨hshort, hstarves⟩
  · have hdecode := decodeMessage_iff.mpr ⟨_, [], hwhole, htype, rfl⟩
    have hrejected : readResponse MSG_SUBSCRIBE_OK "SUBSCRIBE rejected" r = _ :=
      readResponse_rejected hread hdecode
    left
    show Outcome.bind (readResponse _ _ r) _ = _
    rw [hrejected]
    rfl
  · refine .inr ⟨hshort, fun a r' hok => ?_⟩
    obtain ⟨_, _, hresponse, -⟩ := ChunkReader.bind_ok.mp hok
    obtain ⟨_, _, hread, -⟩ := ChunkReader.bind_ok.mp hresponse
    exact hstarves _ _ hread

/-- What the browser makes of a PUBLISH_DONE. -/
def PublishDoneMessage.Is (msg : PublishDoneMessage) (done : Wire.PublishDoneMessage) : Prop :=
  msg.statusCode = done.statusCode.toNat ∧ msg.streamCount = done.streamCount.toNat ∧
    utf8 msg.reasonPhrase = done.reasonPhrase.value

/-- A PUBLISH_DONE with text for its reason is awaited. -/
theorem recvPublishDone_awaits (replace : Bytes → String) {done : Wire.PublishDoneMessage}
    (h : (Wire.RequestMessage.publishDone done).WithinLimits) (hstatus : Readable done.statusCode)
    (hcount : Readable done.streamCount) (hreason : PlainText done.reasonPhrase.value) :
    ∃ msg : PublishDoneMessage, msg.Is done ∧ (recvPublishDone replace).Awaits done.encode msg := by
  have hfits : done.reasonPhrase.value.length ≤ Wire.MAX_LENGTH.toNat := h.reasonPhrase _ rfl
  have hlen := hfits.trans_lt (show Wire.MAX_LENGTH.toNat < 2 ^ 42 by decide)
  have hnat := Wire.toNat_length (show done.reasonPhrase.value.length < 2 ^ 64 by omega)
  have hreasonLen : numberOf (Wire.encodeVarint done.reasonPhrase.value.length.toUInt64) =
      done.reasonPhrase.value.length := by
    rw [numberOf_encode_iff.mpr (.inl (by rwa [hnat])), hnat]
  have hwhole : IsFrame _ _ [] done.encode :=
    isFrame_encode Wire.MSG_PUBLISH_DONE (Wire.length_reasonPayload.trans_le h.payload)
  have htype : numberOf (Wire.encodeVarint Wire.MSG_PUBLISH_DONE) = MSG_PUBLISH_DONE :=
    numberOf_encode_iff.mpr (.inl (by decide))
  have haccepts : AcceptsDone replace done.encode done.statusCode.toNat done.streamCount.toNat
      done.reasonPhrase.value := by
    refine acceptsDone_iff.mpr ⟨_, _, hwhole, htype, _, _, _, done.reasonPhrase.value,
      isCode_encode done.statusCode, isCode_encode done.streamCount,
      isCode_encode done.reasonPhrase.value.length.toUInt64, ?_, numberOf_encode_iff.mpr hstatus,
      numberOf_encode_iff.mpr hcount, ?_⟩
    · exact List.append_assoc _ _ _
    · rw [hreasonLen, List.take_length]
      exact utf8_textDecode_iff.mpr hreason
  obtain ⟨⟨msg, hdecode, his⟩, -⟩ := haccepts
  refine ⟨msg, his, (StreamReader.readMessageFrame_reads.bind fun frame =>
    .ofOutcome (decodePublishDone replace frame)).awaits ?_⟩
  exact ⟨done.encode, done.encode, [], ⟨rfl, _, _, hwhole⟩, ⟨hdecode, rfl⟩,
    (List.append_nil _).symm⟩

end Moqt.Web
