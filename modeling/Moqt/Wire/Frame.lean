import Moqt.Wire.Written
import Moqt.Wire.Stream

/-! The frames that the messages' encoders emit: when the length field is right, and when the
decoder takes the frame. -/

namespace Moqt.Wire

open Library Decoder

/-! ### Frames -/

/-- The largest payload whose length fits the length field. -/
def maxPayload : Nat := 65535

/-- The frame is a type, a length field of two bytes, and a payload of that length. -/
def HasTrueLength (frame : Bytes) : Prop :=
  ∃ msgType typeBytes lenBytes payload, IsVarint msgType typeBytes ∧ lenBytes.length = 2 ∧
    frame = typeBytes ++ lenBytes ++ payload ∧ bigEndian lenBytes = payload.length

/-- The two bytes of a length field. -/
def lengthBytes (n : Nat) : Bytes := [(n.toUInt16 >>> 8).toUInt8, n.toUInt16.toUInt8]

theorem encodeMessage_eq (msgType : UInt64) (payload : Bytes) :
    encodeMessage msgType payload = encodeVarint msgType ++ lengthBytes payload.length ++ payload :=
  rfl

theorem bigEndian_lengthBytes (n : Nat) : bigEndian (lengthBytes n) = n % 65536 := by
  have hlow : n.toUInt16.toUInt8.toNat = n % 65536 % 256 := by
    rw [UInt16.toNat_toUInt8, UInt16.toNat_ofNat']
  have hhigh : (n.toUInt16 >>> 8).toUInt8.toNat = n % 65536 / 256 % 256 := by
    rw [UInt16.toNat_toUInt8, UInt16.toNat_shiftRight, UInt16.toNat_ofNat',
      Nat.shiftRight_eq_div_pow]
    rfl
  simp only [bigEndian, lengthBytes, List.foldl_cons, List.foldl_nil, hlow, hhigh]
  omega

/-- The cast of the length loses nothing exactly if the payload is short enough. -/
theorem hasTrueLength_encodeMessage {msgType : UInt64} {payload : Bytes} :
    HasTrueLength (encodeMessage msgType payload) ↔ payload.length ≤ maxPayload := by
  rw [encodeMessage_eq]
  constructor
  · rintro ⟨otherType, typeBytes, lenBytes, rest, htype, htwo, heq, hlen⟩
    rw [List.append_assoc, List.append_assoc] at heq
    obtain ⟨-, -, htail⟩ := (isVarint_encode msgType).append_inj htype heq
    obtain ⟨rfl, rfl⟩ := List.append_inj htail (by simpa [lengthBytes] using htwo.symm)
    rw [bigEndian_lengthBytes] at hlen
    unfold maxPayload
    omega
  · intro hlen
    refine ⟨msgType, _, _, payload, isVarint_encode msgType, rfl, rfl, ?_⟩
    rw [bigEndian_lengthBytes, Nat.mod_eq_of_lt (by unfold maxPayload at hlen; omega)]

theorem takes_decodeMessage {msgType : UInt64} {payload : Bytes}
    (h : payload.length ≤ maxPayload) :
    decodeMessage.Takes (encodeMessage msgType payload) (msgType, payload) := by
  have hlen : bigEndian (lengthBytes payload.length) = payload.length := by
    rw [bigEndian_lengthBytes, Nat.mod_eq_of_lt (by unfold maxPayload at h; omega)]
  have htwo : (lengthBytes payload.length).length = 2 := rfl
  rw [encodeMessage_eq, List.append_assoc]
  generalize lengthBytes payload.length = lenBytes at hlen htwo
  exact (takes_decodeVarint msgType).bind (.block htwo (.block_pure hlen.symm))

/-- A frame is taken whole, whatever its payload's decoder leaves of the payload. -/
theorem takes_decodeFrame {α : Type} {msgType : UInt64} {name : String} {fields : Decoder α}
    {payload : Bytes} {a : α} (left : Bytes) (hlen : payload.length ≤ maxPayload)
    (h : fields.Returns payload a left) :
    (decodeFrame msgType name fields).Takes (encodeMessage msgType payload) a := by
  intro rest
  refine returns_bind.mpr ⟨(msgType, payload), rest, takes_decodeMessage hlen rest, ?_⟩
  refine returns_bind.mpr ⟨(), rest, returns_ensure.mpr ⟨by simp, rfl⟩, ?_⟩
  exact returns_bind.mpr ⟨(a, left), rest, returns_onSlice.mpr ⟨h, rfl⟩,
    returns_pure.mpr ⟨rfl, rfl⟩⟩

theorem returns_of_decodeFrame {α : Type} {msgType : UInt64} {name : String} {fields : Decoder α}
    {payload rest r : Bytes} {a : α} (hlen : payload.length ≤ maxPayload)
    (h : (decodeFrame msgType name fields).Returns (encodeMessage msgType payload ++ rest) a r) :
    ∃ left, fields.Returns payload a left := by
  obtain ⟨⟨t, p⟩, mid, hmessage, h⟩ := returns_bind.mp h
  obtain ⟨heq, -⟩ := (takes_decodeMessage hlen rest).unique hmessage
  obtain ⟨rfl, rfl⟩ := Prod.mk.inj heq
  obtain ⟨-, _, -, h⟩ := returns_bind.mp h
  obtain ⟨⟨b, left⟩, _, hfields, h⟩ := returns_bind.mp h
  obtain ⟨rfl, -⟩ := returns_pure.mp h
  exact ⟨left, (returns_onSlice.mp hfields).1⟩

theorem takes_decodeBytes {bytes : Bytes} (m : String) (h : bytes.length < 2 ^ 64) :
    (decodeBytes m).Takes (encodeVarint bytes.length.toUInt64 ++ bytes) bytes := by
  exact (takes_decodeVarint _).bind (.block_pure (f := id) (toNat_length h).symm)

/-! ### Sizes of payloads -/

def SetupMessage.payloadSize (m : SetupMessage) : Nat :=
  keyValuePairsSize (m.setupOptions.map SetupOption.toKeyValuePair)

def SubscribeMessage.payloadSize (m : SubscribeMessage) : Nat :=
  varintSize m.requestId + varintSize m.requiredRequestIdDelta + namespaceSize m.trackNamespace +
    blockSize m.trackName + parametersSize m.parameters

def PublishNamespaceMessage.payloadSize (m : PublishNamespaceMessage) : Nat :=
  varintSize m.requestId + varintSize m.requiredRequestIdDelta + namespaceSize m.trackNamespace +
    parametersSize []

def SubscribeOkMessage.payloadSize (m : SubscribeOkMessage) : Nat :=
  varintSize m.trackAlias + parametersSize m.parameters + blockSize m.trackPropertiesRaw

def RequestErrorMessage.payloadSize (m : RequestErrorMessage) : Nat :=
  varintSize m.errorCode + varintSize m.retryInterval + blockSize m.reasonPhrase.value

def PublishDoneMessage.payloadSize (m : PublishDoneMessage) : Nat :=
  varintSize m.statusCode + varintSize m.streamCount + blockSize m.reasonPhrase.value

/-! ### Messages -/

/-- `frame` holds a payload of `size` bytes, and the decoder takes it as `a` if the payload is short
enough. -/
def Emits {α : Type} (msgType : UInt64) (d : Decoder α) (size : Nat) (frame : Bytes) (a : α) :
    Prop :=
  ∃ payload, frame = encodeMessage msgType payload ∧ payload.length = size ∧
    (payload.length ≤ maxPayload → d.Takes frame a)

theorem Emits.hasTrueLength_iff {α : Type} {msgType : UInt64} {d : Decoder α} {size : Nat}
    {frame : Bytes} {a : α} (h : Emits msgType d size frame a) :
    HasTrueLength frame ↔ size ≤ maxPayload := by
  obtain ⟨payload, rfl, rfl, -⟩ := h
  exact hasTrueLength_encodeMessage

theorem Emits.takes {α : Type} {msgType : UInt64} {d : Decoder α} {size : Nat} {frame : Bytes}
    {a : α} (h : Emits msgType d size frame a) (hsize : size ≤ maxPayload) : d.Takes frame a := by
  obtain ⟨payload, rfl, rfl, htakes⟩ := h
  exact htakes hsize

theorem SubscribeMessage.emits {m : SubscribeMessage} {frame : Bytes} (h : m.encode = .ok frame) :
    Emits MSG_SUBSCRIBE SubscribeMessage.decode m.payloadSize frame m := by
  simp only [encode, ok_bind, ok_pure] at h
  obtain ⟨ns, hns, params, hparams, rfl⟩ := h
  refine ⟨_, rfl, ?_, fun hlen => ?_⟩
  · simp [payloadSize, blockSize, encodeTrackNamespace_ok hns, encodeParameters_ok hparams,
      Nat.add_assoc]
  · refine takes_decodeFrame [] hlen (Takes.returns ?_)
    simp only [List.length_append, maxPayload] at hlen
    simp only [List.append_assoc]
    refine (takes_decodeVarint _).bind ((takes_decodeVarint _).bind ?_)
    refine (takes_decodeTrackNamespace hns (by omega)).bind ?_
    rw [← List.append_assoc]
    refine (takes_decodeBytes _ (by omega)).bind ?_
    exact (takes_decodeParameters hparams (by omega)).bind_pure

theorem PublishNamespaceMessage.emits {m : PublishNamespaceMessage} {frame : Bytes}
    (h : m.encode = .ok frame) :
    Emits MSG_PUBLISH_NAMESPACE PublishNamespaceMessage.decode m.payloadSize frame m := by
  simp only [encode, ok_bind, ok_pure] at h
  obtain ⟨ns, hns, params, hparams, rfl⟩ := h
  refine ⟨_, rfl, ?_, fun hlen => ?_⟩
  · simp [payloadSize, encodeTrackNamespace_ok hns, encodeParameters_ok hparams, Nat.add_assoc]
  · refine takes_decodeFrame [] hlen (Takes.returns ?_)
    simp only [List.length_append, maxPayload] at hlen
    simp only [List.append_assoc]
    refine (takes_decodeVarint _).bind ((takes_decodeVarint _).bind ?_)
    refine (takes_decodeTrackNamespace hns (by omega)).bind ?_
    exact (takes_decodeParameters hparams (by omega)).bind_pure

theorem SubscribeOkMessage.emits {m : SubscribeOkMessage} {frame : Bytes}
    (h : m.encode = .ok frame) :
    Emits MSG_SUBSCRIBE_OK SubscribeOkMessage.decode m.payloadSize frame m := by
  simp only [encode, ok_bind, ok_pure] at h
  obtain ⟨params, hparams, rfl⟩ := h
  refine ⟨_, rfl, ?_, fun hlen => ?_⟩
  · simp [payloadSize, blockSize, encodeParameters_ok hparams, Nat.add_assoc]
  · refine takes_decodeFrame m.trackPropertiesRaw hlen ?_
    simp only [List.length_append, maxPayload] at hlen
    have hprops := toNat_length (l := m.trackPropertiesRaw) (by omega)
    simp only [List.append_assoc]
    refine returns_bind.mpr ⟨m.trackAlias, _, decodeVarint_encode _ _, ?_⟩
    refine returns_bind.mpr ⟨m.parameters, _, takes_decodeParameters hparams (by omega) _, ?_⟩
    refine returns_bind.mpr ⟨_, m.trackPropertiesRaw, decodeVarint_encode _ _, ?_⟩
    rw [hprops]
    -- the properties are the rest of the payload, and are not taken off it
    refine returns_bind.mpr ⟨(), _, returns_ensureLen.mpr ⟨Nat.le_refl _, rfl⟩, ?_⟩
    exact returns_bind.mpr ⟨m.trackPropertiesRaw, _,
      returns_slice.mpr ⟨Nat.le_refl _, List.take_length, rfl⟩, returns_pure.mpr ⟨rfl, rfl⟩⟩

theorem RequestOkMessage.emits {m : RequestOkMessage} {frame : Bytes} (h : m.encode = .ok frame) :
    Emits MSG_REQUEST_OK RequestOkMessage.decode (parametersSize []) frame m := by
  obtain ⟨params, hparams⟩ : ∃ params, encodeParameters [] = .ok params :=
    exists_encodeParameters ⟨.nil, by simp⟩
  simp only [encode, hparams, ok_pure] at h
  subst h
  refine ⟨params, rfl, encodeParameters_ok hparams, fun hlen => ?_⟩
  refine takes_decodeFrame [] hlen (Takes.returns ?_)
  unfold maxPayload at hlen
  exact (takes_decodeParameters hparams (by omega)).bind_pure

theorem toKeyValuePair_ofKeyValuePair (pair : KeyValuePair) :
    (SetupOption.ofKeyValuePair pair).toKeyValuePair = pair := by
  obtain ⟨typeId, value⟩ := pair
  unfold SetupOption.ofKeyValuePair
  split
  next hpath =>
    rw [beq_iff_eq] at hpath
    subst hpath
    cases value <;> rfl
  · split
    next hauthority =>
      rw [beq_iff_eq] at hauthority
      subst hauthority
      cases value <;> rfl
    · rfl

theorem map_toKeyValuePair (pairs : List KeyValuePair) :
    (pairs.map SetupOption.ofKeyValuePair).map SetupOption.toKeyValuePair = pairs := by
  rw [List.map_map]
  exact List.map_id'' toKeyValuePair_ofKeyValuePair pairs

/-- The option that the decoder has for one that is written as unknown. -/
def SetupOption.readBack (o : SetupOption) : SetupOption := .ofKeyValuePair o.toKeyValuePair

def SetupMessage.readBack (m : SetupMessage) : SetupMessage := ⟨m.setupOptions.map (·.readBack)⟩

theorem SetupMessage.emits {m : SetupMessage} {frame : Bytes} (h : m.encode = .ok frame) :
    Emits MSG_SETUP SetupMessage.decode m.payloadSize frame m.readBack := by
  simp only [encode, ok_bind, ok_pure] at h
  obtain ⟨payload, hpairs, rfl⟩ := h
  refine ⟨payload, rfl, encodeKeyValuePairs_ok hpairs, fun hlen => ?_⟩
  refine takes_decodeFrame [] hlen (returns_bind.mpr
    ⟨_, [], returns_decodeKeyValuePairs hpairs hlen, returns_pure.mpr ⟨?_, rfl⟩⟩)
  rw [List.map_map]
  rfl

/-! ### Reason phrases -/

section ReasonPhrase

variable {msgType a b : UInt64} {name : String} {rp : ReasonPhrase}

/-- Two integers and a reason phrase, as in REQUEST_ERROR and in PUBLISH_DONE. -/
def reasonPayload (a b : UInt64) (rp : ReasonPhrase) : Bytes :=
  encodeVarint a ++ encodeVarint b ++ encodeReasonPhrase rp

def decodeReasonPayload {α : Type} (f : UInt64 → UInt64 → ReasonPhrase → α) : Decoder α := do
  let a ← decodeVarint
  let b ← decodeVarint
  let rp ← decodeReasonPhrase
  return f a b rp

theorem length_reasonPayload :
    (reasonPayload a b rp).length = varintSize a + varintSize b + blockSize rp.value := by
  simp [reasonPayload, length_encodeReasonPhrase, Nat.add_assoc]

theorem takes_decodeReasonPayload {α : Type} (f : UInt64 → UInt64 → ReasonPhrase → α)
    (h : rp.value.length ≤ MAX_LENGTH.toNat) :
    (decodeReasonPayload f).Takes (reasonPayload a b rp) (f a b rp) := by
  rw [reasonPayload, List.append_assoc]
  exact (takes_decodeVarint a).bind ((takes_decodeVarint b).bind
    (takes_decodeReasonPhrase h).bind_pure)

theorem reason_of_returns {α : Type} {f : UInt64 → UInt64 → ReasonPhrase → α} {c : α} {r : Bytes}
    (hlength : rp.value.length < 2 ^ 64)
    (h : (decodeReasonPayload f).Returns (reasonPayload a b rp) c r) :
    rp.value.length ≤ MAX_LENGTH.toNat := by
  simp only [decodeReasonPayload, returns_bind, reasonPayload, List.append_assoc] at h
  obtain ⟨a', _, ha, b', _, hb, rp', _, hrp, -⟩ := h
  obtain ⟨rfl, rfl⟩ := (decodeVarint_encode a _).unique ha
  obtain ⟨rfl, rfl⟩ := (decodeVarint_encode b _).unique hb
  rw [← List.append_nil (encodeReasonPhrase rp)] at hrp
  exact length_le_of_decodeReasonPhrase hlength hrp

/-- A frame with a reason phrase is taken exactly if the phrase is short enough. -/
theorem decodeReasonFrame_iff {α : Type} {f : UInt64 → UInt64 → ReasonPhrase → α}
    (hlen : (reasonPayload a b rp).length ≤ maxPayload) :
    (∃ c, (decodeFrame msgType name (decodeReasonPayload f)).Returns
        (encodeMessage msgType (reasonPayload a b rp)) c []) ↔
      rp.value.length ≤ MAX_LENGTH.toNat := by
  constructor
  · rintro ⟨c, h⟩
    rw [← List.append_nil (encodeMessage _ _)] at h
    obtain ⟨left, hfields⟩ := returns_of_decodeFrame hlen h
    refine reason_of_returns ?_ hfields
    simp only [length_reasonPayload, blockSize, maxPayload] at hlen
    omega
  · intro h
    exact ⟨_, (takes_decodeFrame [] hlen (takes_decodeReasonPayload f h).returns).returns⟩

end ReasonPhrase

theorem RequestErrorMessage.takes {m : RequestErrorMessage}
    (hsize : m.payloadSize ≤ maxPayload) (h : m.reasonPhrase.value.length ≤ MAX_LENGTH.toNat) :
    RequestErrorMessage.decode.Takes m.encode m :=
  takes_decodeFrame [] (length_reasonPayload.trans_le hsize)
    (takes_decodeReasonPayload RequestErrorMessage.mk h).returns

theorem PublishDoneMessage.takes {m : PublishDoneMessage}
    (hsize : m.payloadSize ≤ maxPayload) (h : m.reasonPhrase.value.length ≤ MAX_LENGTH.toNat) :
    PublishDoneMessage.decode.Takes m.encode m :=
  takes_decodeFrame [] (length_reasonPayload.trans_le hsize)
    (takes_decodeReasonPayload PublishDoneMessage.mk h).returns

end Moqt.Wire
