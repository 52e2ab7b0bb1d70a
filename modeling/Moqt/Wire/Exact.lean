import Moqt.Wire.Layout

/-! Whether a control message's fields are all of its frame.  A message's decoder reads a copy of
the payload and ends behind the last field; the filter's decoder does the same with the filter's own
bytes.  Neither looks at what is left. -/

namespace Moqt.Wire

open Library Decoder

/-! ### The messages' layouts -/

/-- Two integers and a reason phrase. -/
def ReasonLayout (a b : UInt64) (rp : ReasonPhrase) (w : Bytes) : Prop :=
  ∃ u v t, IsVarint a u ∧ IsVarint b v ∧
    (rp.value.length ≤ MAX_LENGTH.toNat ∧ LengthPrefixed rp.value t) ∧ w = u ++ (v ++ t)

/-- The fields of a message in their order, with the lengths that are declared within them. -/
def RequestMessage.Layout : RequestMessage → List Region → Bytes → Prop
  | .publishNamespace m, regions, w => ∃ u v n p params, IsVarint m.requestId u ∧
      IsVarint m.requiredRequestIdDelta v ∧ m.trackNamespace.Layout n ∧
      ParametersLayout params regions p ∧ w = u ++ (v ++ (n ++ p))
  | .subscribe m, regions, w => ∃ u v n t p, IsVarint m.requestId u ∧
      IsVarint m.requiredRequestIdDelta v ∧ m.trackNamespace.Layout n ∧
      LengthPrefixed m.trackName t ∧ ParametersLayout m.parameters regions p ∧
      w = u ++ (v ++ (n ++ (t ++ p)))
  | .subscribeOk m, regions, w => ∃ u p t, IsVarint m.trackAlias u ∧
      ParametersLayout m.parameters regions p ∧ LengthPrefixed m.trackPropertiesRaw t ∧
      w = u ++ (p ++ t)
  | .requestOk _, regions, w => ∃ params, ParametersLayout params regions w
  | .requestError m, regions, w =>
      ReasonLayout m.errorCode m.retryInterval m.reasonPhrase w ∧ regions = []
  | .publishDone m, regions, w =>
      ReasonLayout m.statusCode m.streamCount m.reasonPhrase w ∧ regions = []

/-- The payload starts with the fields of the message. -/
def RequestMessage.StartsPayload (m : RequestMessage) (payload : Bytes) : Prop :=
  ∃ regions w left, m.Layout regions w ∧ payload = w ++ left

theorem returns_decodeFrame_iff {α : Type} {msgType : UInt64} {name : String} {fields : Decoder α}
    {b r : Bytes} {a : α} : (decodeFrame msgType name fields).Returns b a r ↔
      ∃ payload left, decodeMessage.Returns b (msgType, payload) r ∧
        fields.Returns payload a left := by
  constructor
  · exact payload_of_decodeFrame
  · rintro ⟨payload, left, hmessage, hfields⟩
    refine returns_bind.mpr ⟨_, r, hmessage, returns_bind.mpr ⟨(), r, ?_, ?_⟩⟩
    · exact returns_ensure.mpr ⟨beq_self_eq_true msgType, rfl⟩
    · exact returns_bind.mpr ⟨(a, left), r, returns_onSlice.mpr ⟨hfields, rfl⟩,
        returns_pure.mpr ⟨rfl, rfl⟩⟩

theorem PublishNamespaceMessage.returns_iff {b r : Bytes} {m : PublishNamespaceMessage} :
    PublishNamespaceMessage.decode.Returns b m r ↔ ∃ payload,
      decodeMessage.Returns b (MSG_PUBLISH_NAMESPACE, payload) r ∧
        (RequestMessage.publishNamespace m).StartsPayload payload := by
  unfold PublishNamespaceMessage.decode
  simp only [returns_decodeFrame_iff, returns_bind, returns_pure, decodeVarint_reads _ _ _,
    decodeTrackNamespace_reads _ _ _]
  constructor
  · rintro ⟨payload, left, hmessage, id, _, ⟨u, hu, rfl⟩, delta, _, ⟨v, hv, rfl⟩, ns, _,
      ⟨n, hn, rfl⟩, params, rest, hparams, rfl, rfl⟩
    obtain ⟨regions, p, rfl, hp, -⟩ := returns_decodeParameters.mp hparams
    exact ⟨_, hmessage, regions, _, rest, ⟨u, v, n, p, params, hu, hv, hn, hp, rfl⟩, by simp⟩
  · rintro ⟨_, hmessage, regions, _, left, ⟨u, v, n, p, params, hu, hv, hn, hp, rfl⟩, rfl⟩
    have hfits := (decodeMessage_length hmessage).2
    have hparams := hp.returns (by simp only [List.length_append] at hfits; omega) left
    simp only [List.append_assoc] at hmessage ⊢
    exact ⟨_, left, hmessage, m.requestId, _, ⟨u, hu, rfl⟩, _, _, ⟨v, hv, rfl⟩, _, _,
      ⟨n, hn, rfl⟩, params, left, hparams, rfl, rfl⟩

theorem SubscribeMessage.returns_iff {b r : Bytes} {m : SubscribeMessage} :
    SubscribeMessage.decode.Returns b m r ↔ ∃ payload,
      decodeMessage.Returns b (MSG_SUBSCRIBE, payload) r ∧
        (RequestMessage.subscribe m).StartsPayload payload := by
  unfold SubscribeMessage.decode
  simp only [returns_decodeFrame_iff, returns_bind, returns_pure, decodeVarint_reads _ _ _,
    decodeTrackNamespace_reads _ _ _, decodeBytes_reads _ _ _ _]
  constructor
  · rintro ⟨payload, left, hmessage, id, _, ⟨u, hu, rfl⟩, delta, _, ⟨v, hv, rfl⟩, ns, _,
      ⟨n, hn, rfl⟩, name, _, ⟨t, ht, rfl⟩, params, rest, hparams, rfl, rfl⟩
    obtain ⟨regions, p, rfl, hp, -⟩ := returns_decodeParameters.mp hparams
    exact ⟨_, hmessage, regions, _, rest, ⟨u, v, n, t, p, hu, hv, hn, ht, hp, rfl⟩, by simp⟩
  · rintro ⟨_, hmessage, regions, _, left, ⟨u, v, n, t, p, hu, hv, hn, ht, hp, rfl⟩, rfl⟩
    have hfits := (decodeMessage_length hmessage).2
    have hparams := hp.returns (by simp only [List.length_append] at hfits; omega) left
    simp only [List.append_assoc] at hmessage ⊢
    exact ⟨_, left, hmessage, m.requestId, _, ⟨u, hu, rfl⟩, _, _, ⟨v, hv, rfl⟩, _, _,
      ⟨n, hn, rfl⟩, _, _, ⟨t, ht, rfl⟩, m.parameters, left, hparams, rfl, rfl⟩

/-- The properties are compared with the bytes that are there, and not taken off them. -/
theorem SubscribeOkMessage.returns_iff {b r : Bytes} {m : SubscribeOkMessage} :
    SubscribeOkMessage.decode.Returns b m r ↔ ∃ payload,
      decodeMessage.Returns b (MSG_SUBSCRIBE_OK, payload) r ∧
        (RequestMessage.subscribeOk m).StartsPayload payload := by
  unfold SubscribeOkMessage.decode
  simp only [returns_decodeFrame_iff, returns_bind, returns_pure, returns_ensureLen, returns_slice,
    decodeVarint_reads _ _ _]
  constructor
  · rintro ⟨payload, left, hmessage, trackAlias, _, ⟨u, hu, rfl⟩, params, _, hparams, len,
      rest, ⟨c, hc, rfl⟩, -, _, ⟨hle, rfl⟩, _, _, ⟨-, rfl, rfl⟩, rfl, rfl⟩
    obtain ⟨regions, p, rfl, hp, -⟩ := returns_decodeParameters.mp hparams
    refine ⟨_, hmessage, regions, _, rest.drop len.toNat, ⟨u, p, _, hu, hp,
      ⟨len, c, hc, (List.length_take_of_le hle).symm, rfl⟩, rfl⟩, ?_⟩
    simp only [List.append_assoc, List.take_append_drop]
  · rintro ⟨_, hmessage, regions, _, left, ⟨u, p, _, hu, hp, ⟨len, c, hc, hlen, rfl⟩, rfl⟩, rfl⟩
    have hfits := (decodeMessage_length hmessage).2
    have hparams := hp.returns (by simp only [List.length_append] at hfits; omega)
      (c ++ (m.trackPropertiesRaw ++ left))
    simp only [List.append_assoc] at hmessage ⊢
    refine ⟨_, _, hmessage, m.trackAlias, _, ⟨u, hu, rfl⟩, m.parameters, _, hparams, len, _,
      ⟨c, hc, rfl⟩, (), _, ⟨?_, rfl⟩, _, _, ⟨?_, List.take_left' hlen.symm, rfl⟩, rfl, rfl⟩
    all_goals simp [hlen]

theorem RequestOkMessage.returns_iff {b r : Bytes} {m : RequestOkMessage} :
    RequestOkMessage.decode.Returns b m r ↔ ∃ payload,
      decodeMessage.Returns b (MSG_REQUEST_OK, payload) r ∧
        (RequestMessage.requestOk m).StartsPayload payload := by
  unfold RequestOkMessage.decode
  simp only [returns_decodeFrame_iff, returns_bind, returns_pure]
  constructor
  · rintro ⟨payload, left, hmessage, params, _, hparams, -, rfl⟩
    obtain ⟨regions, p, rfl, hp, -⟩ := returns_decodeParameters.mp hparams
    exact ⟨_, hmessage, regions, p, _, ⟨params, hp⟩, rfl⟩
  · rintro ⟨_, hmessage, regions, p, left, ⟨params, hp⟩, rfl⟩
    have hfits := (decodeMessage_length hmessage).2
    have hparams := hp.returns (by simp only [List.length_append] at hfits; omega) left
    exact ⟨_, left, hmessage, params, left, hparams, trivial, rfl⟩

theorem returns_decodeReasonPayload {α : Type} {f : UInt64 → UInt64 → ReasonPhrase → α} {a : α}
    {payload left : Bytes} : (decodeReasonPayload f).Returns payload a left ↔
      ∃ x y rp w, ReasonLayout x y rp w ∧ f x y rp = a ∧ payload = w ++ left := by
  simp only [decodeReasonPayload, returns_bind, returns_pure, decodeVarint_reads _ _ _,
    decodeReasonPhrase_reads _ _ _]
  constructor
  · rintro ⟨x, _, ⟨u, hu, rfl⟩, y, _, ⟨v, hv, rfl⟩, rp, _, ⟨t, ht, rfl⟩, rfl, rfl⟩
    exact ⟨x, y, rp, _, ⟨u, v, t, hu, hv, ht, rfl⟩, rfl, by simp⟩
  · rintro ⟨x, y, rp, _, ⟨u, v, t, hu, hv, ht, rfl⟩, rfl, rfl⟩
    simp only [List.append_assoc]
    exact ⟨x, _, ⟨u, hu, rfl⟩, y, _, ⟨v, hv, rfl⟩, rp, left, ⟨t, ht, rfl⟩, rfl, rfl⟩

theorem RequestErrorMessage.returns_iff {b r : Bytes} {m : RequestErrorMessage} :
    RequestErrorMessage.decode.Returns b m r ↔ ∃ payload,
      decodeMessage.Returns b (MSG_REQUEST_ERROR, payload) r ∧
        (RequestMessage.requestError m).StartsPayload payload := by
  have hfields : RequestErrorMessage.decode = decodeFrame MSG_REQUEST_ERROR "REQUEST_ERROR"
      (decodeReasonPayload RequestErrorMessage.mk) := rfl
  simp only [hfields, returns_decodeFrame_iff, returns_decodeReasonPayload]
  constructor
  · rintro ⟨payload, left, hmessage, x, y, rp, w, hw, rfl, rfl⟩
    exact ⟨_, hmessage, [], w, left, ⟨hw, rfl⟩, rfl⟩
  · rintro ⟨_, hmessage, _, w, left, ⟨hw, rfl⟩, rfl⟩
    exact ⟨_, left, hmessage, _, _, _, w, hw, rfl, rfl⟩

theorem PublishDoneMessage.returns_iff {b r : Bytes} {m : PublishDoneMessage} :
    PublishDoneMessage.decode.Returns b m r ↔ ∃ payload,
      decodeMessage.Returns b (MSG_PUBLISH_DONE, payload) r ∧
        (RequestMessage.publishDone m).StartsPayload payload := by
  have hfields : PublishDoneMessage.decode = decodeFrame MSG_PUBLISH_DONE "PUBLISH_DONE"
      (decodeReasonPayload PublishDoneMessage.mk) := rfl
  simp only [hfields, returns_decodeFrame_iff, returns_decodeReasonPayload]
  constructor
  · rintro ⟨payload, left, hmessage, x, y, rp, w, hw, rfl, rfl⟩
    exact ⟨_, hmessage, [], w, left, ⟨hw, rfl⟩, rfl⟩
  · rintro ⟨_, hmessage, _, w, left, ⟨hw, rfl⟩, rfl⟩
    exact ⟨_, left, hmessage, _, _, _, w, hw, rfl, rfl⟩

/-! ### The parser -/

theorem returns_decodeRequest {msgType : UInt64} {b r : Bytes} {m : RequestMessage} :
    (decodeRequest msgType).Returns b m r ↔
      msgType = m.msgType ∧ m.matchingDecode.Returns b m r := by
  constructor
  · intro h
    simp only [decodeRequest, returns_ite, returns_bind, returns_pure, returns_bail, beq_iff_eq,
      and_false, or_false] at h
    rcases h with ⟨rfl, a, _, ha, rfl, rfl⟩ | ⟨-, ⟨rfl, a, _, ha, rfl, rfl⟩ | ⟨-, ⟨rfl, a, _, ha,
      rfl, rfl⟩ | ⟨-, ⟨rfl, a, _, ha, rfl, rfl⟩ | ⟨-, ⟨rfl, a, _, ha, rfl, rfl⟩ | ⟨-, rfl, a, _, ha,
      rfl, rfl⟩⟩⟩⟩⟩
    all_goals exact ⟨rfl, returns_map.mpr ⟨a, ha, rfl⟩⟩
  · rintro ⟨rfl, h⟩
    have hdecode : decodeRequest m.msgType = m.matchingDecode := by
      cases m <;> rfl
    rwa [hdecode]

theorem RequestMessage.returns_matchingDecode {b r : Bytes} {m : RequestMessage} :
    m.matchingDecode.Returns b m r ↔ ∃ payload, decodeMessage.Returns b (m.msgType, payload) r ∧
      m.StartsPayload payload := by
  cases m with
  | publishNamespace m =>
    exact (returns_map_apply fun _ _ => publishNamespace.inj).trans m.returns_iff
  | subscribe m => exact (returns_map_apply fun _ _ => subscribe.inj).trans m.returns_iff
  | subscribeOk m => exact (returns_map_apply fun _ _ => subscribeOk.inj).trans m.returns_iff
  | requestOk m => exact (returns_map_apply fun _ _ _ => rfl).trans m.returns_iff
  | requestError m => exact (returns_map_apply fun _ _ => requestError.inj).trans m.returns_iff
  | publishDone m => exact (returns_map_apply fun _ _ => publishDone.inj).trans m.returns_iff

/-- The parser accepts a frame as a message exactly if the message's fields are in front of the
payload; what is behind them does not matter. -/
theorem RequestMessage.parse_iff {b r : Bytes} {m : RequestMessage} :
    parseRequestMessage.Returns b m r ↔ ∃ payload, decodeMessage.Returns b (m.msgType, payload) r ∧
      m.StartsPayload payload := by
  rw [returns_parse_iff]
  simp only [returns_decodeRequest, returns_matchingDecode]
  constructor
  · rintro ⟨_, left, -, rfl, h⟩
    exact h
  · rintro ⟨payload, hmessage, hstarts⟩
    obtain ⟨w, high, low, hw, -, rfl⟩ := decodeMessage_iff.mp hmessage
    exact ⟨m.msgType, _, hw.returns _, rfl, payload, hmessage, hstarts⟩

/-! ### Frames -/

/-- `b` is a type, the two bytes of a length, and a payload of that length. -/
def Frames (msgType : UInt64) (payload b : Bytes) : Prop :=
  ∃ w, ∃ high low : UInt8, IsVarint msgType w ∧
    high.toNat * 256 + low.toNat = payload.length ∧ b = w ++ (high :: low :: payload)

theorem decodeMessage_whole_iff {msgType : UInt64} {payload b : Bytes} :
    decodeMessage.Returns b (msgType, payload) [] ↔ Frames msgType payload b := by
  rw [decodeMessage_iff, List.append_nil]
  exact Iff.rfl

theorem Frames.unique {msgType msgType' : UInt64} {payload payload' b : Bytes}
    (h : Frames msgType payload b) (h' : Frames msgType' payload' b) :
    msgType = msgType' ∧ payload = payload' := by
  have hreturns := (decodeMessage_whole_iff.mpr h).unique (decodeMessage_whole_iff.mpr h')
  exact Prod.mk.inj hreturns.1

theorem decodeMessage_reads : decodeMessage.Reads fun p w => Frames p.1 p.2 w := by
  rintro b ⟨msgType, payload⟩ r
  rw [decodeMessage_iff]
  constructor
  · rintro ⟨w, high, low, hw, hlen, rfl⟩
    exact ⟨_, ⟨w, high, low, hw, hlen, rfl⟩, by simp⟩
  · rintro ⟨_, ⟨w, high, low, hw, hlen, rfl⟩, rfl⟩
    exact ⟨w, high, low, hw, hlen, by simp⟩

/-- What `read_message_frame` takes is one whole frame. -/
theorem readMessageFrame_reads :
    readMessageFrame.Reads fun f w => f = w ∧ ∃ msgType payload, Frames msgType payload w := by
  intro s f t
  simp only [readMessageFrame, Reader.returns_bind, Reader.returns_readExact,
    Reader.returns_readBuffer, Reader.returns_pure]
  constructor
  · rintro ⟨⟨msgType, typeBytes⟩, _, htype, lenBytes, _, ⟨htwo, hsplitLen⟩, payload, _,
      ⟨hlength, hsplit⟩, rfl, rfl⟩
    obtain ⟨hw, hsplitType⟩ := returns_readVarint.mp htype
    obtain ⟨high, low, rfl⟩ := List.length_eq_two.mp htwo
    refine ⟨_, ⟨rfl, msgType, payload, typeBytes, high, low, hw, ?_, by simp⟩,
      (hsplitType.trans hsplitLen).trans hsplit⟩
    rw [hlength]
    simp [bigEndian]
  · rintro ⟨_, ⟨rfl, msgType, payload, typeBytes, high, low, hw, hlength, rfl⟩, hsplit⟩
    rw [show high :: low :: payload = [high, low] ++ payload from rfl] at hsplit
    obtain ⟨mid, hsplitType, hsplit⟩ := ByteStream.splits_append.mp hsplit
    obtain ⟨mid', hsplitLen, hsplit⟩ := ByteStream.splits_append.mp hsplit
    refine ⟨(msgType, typeBytes), mid, returns_readVarint.mpr ⟨hw, hsplitType⟩, [high, low], mid',
      ⟨rfl, hsplitLen⟩, payload, t, ⟨?_, hsplit⟩, by simp, rfl⟩
    rw [← hlength]
    simp [bigEndian]

/-! ### Exactness -/

/-- What a message of the frame's type can start the payload with ends once. -/
theorem RequestMessage.Layout.append_inj {m : RequestMessage} {regions regions' : List Region}
    {w w' x x' : Bytes} (h : m.Layout regions w) (h' : m.Layout regions' w')
    (heq : w ++ x = w' ++ x') : regions = regions' ∧ w = w' := by
  cases m with
  | publishNamespace m =>
    obtain ⟨u, v, n, p, params, hu, hv, hn, hp, rfl⟩ := h
    obtain ⟨u', v', n', p', params', hu', hv', hn', hp', rfl⟩ := h'
    simp only [List.append_assoc] at heq
    obtain ⟨-, rfl, hdelta⟩ := hu.append_inj hu' heq
    obtain ⟨-, rfl, hns⟩ := hv.append_inj hv' hdelta
    obtain ⟨-, rfl, hparams⟩ := decodeTrackNamespace_reads.append_inj hn hn' hns
    obtain ⟨rfl, rfl, -⟩ := hp.append_inj hp' hparams
    exact ⟨rfl, rfl⟩
  | subscribe m =>
    obtain ⟨u, v, n, t, p, hu, hv, hn, ht, hp, rfl⟩ := h
    obtain ⟨u', v', n', t', p', hu', hv', hn', ht', hp', rfl⟩ := h'
    simp only [List.append_assoc] at heq
    obtain ⟨-, rfl, hdelta⟩ := hu.append_inj hu' heq
    obtain ⟨-, rfl, hns⟩ := hv.append_inj hv' hdelta
    obtain ⟨-, rfl, hname⟩ := decodeTrackNamespace_reads.append_inj hn hn' hns
    obtain ⟨-, rfl, hparams⟩ := (decodeBytes_reads "").append_inj ht ht' hname
    obtain ⟨rfl, rfl, -⟩ := hp.append_inj hp' hparams
    exact ⟨rfl, rfl⟩
  | subscribeOk m =>
    obtain ⟨u, p, t, hu, hp, ht, rfl⟩ := h
    obtain ⟨u', p', t', hu', hp', ht', rfl⟩ := h'
    simp only [List.append_assoc] at heq
    obtain ⟨-, rfl, hparams⟩ := hu.append_inj hu' heq
    obtain ⟨rfl, rfl, hprops⟩ := hp.append_inj hp' hparams
    obtain ⟨-, rfl, -⟩ := (decodeBytes_reads "").append_inj ht ht' hprops
    exact ⟨rfl, rfl⟩
  | requestOk m =>
    obtain ⟨params, hp⟩ := h
    obtain ⟨params', hp'⟩ := h'
    obtain ⟨rfl, rfl, -⟩ := hp.append_inj hp' heq
    exact ⟨rfl, rfl⟩
  | requestError m | publishDone m =>
    obtain ⟨⟨u, v, t, hu, hv, ht, rfl⟩, rfl⟩ := h
    obtain ⟨⟨u', v', t', hu', hv', ht', rfl⟩, rfl⟩ := h'
    simp only [List.append_assoc] at heq
    obtain ⟨-, rfl, hsecond⟩ := hu.append_inj hu' heq
    obtain ⟨-, rfl, hreason⟩ := hv.append_inj hv' hsecond
    obtain ⟨-, rfl, -⟩ := decodeReasonPhrase_reads.append_inj ht ht' hreason
    exact ⟨rfl, rfl⟩

def Region.Exact (region : Region) : Prop := region.declared = region.content

/-- If the frame is parsed, the fields of the message are the payload, to its last byte and to the
last byte of each region within it. -/
structure ParsedExactly (b : Bytes) : Prop where
  request : ∀ m rest, parseRequestMessage.Returns b m rest → ∃ payload regions,
    Frames m.msgType payload b ∧ m.Layout regions payload ∧ ∀ region ∈ regions, region.Exact
  setup : ∀ m rest, SetupMessage.decode.Returns b m rest → ∃ payload pairs,
    Frames MSG_SETUP payload b ∧ Pairs 0 payload pairs ∧
      m.setupOptions = pairs.map SetupOption.ofKeyValuePair

/-- Where the payload starts with the fields of a message of the frame's type, the lengths that the
frame declares for the payload and within it are those of the fields. -/
def LengthsAgree (b : Bytes) : Prop :=
  ∀ m : RequestMessage, ∀ regions w left, m.Layout regions w → Frames m.msgType (w ++ left) b →
    ∀ region ∈ ⟨(w ++ left).length, w.length⟩ :: regions, region.Exact

/-- A SETUP's pairs are read until the payload is empty. -/
theorem SetupMessage.exact {b rest : Bytes} {m : SetupMessage}
    (h : SetupMessage.decode.Returns b m rest) : ∃ payload pairs,
      decodeMessage.Returns b (MSG_SETUP, payload) rest ∧ Pairs 0 payload pairs ∧
        m.setupOptions = pairs.map SetupOption.ofKeyValuePair := by
  obtain ⟨payload, left, hmessage, hfields⟩ := payload_of_decodeFrame h
  simp only [returns_bind, returns_pure, decodeKeyValuePairs_iff] at hfields
  obtain ⟨pairs, _, ⟨hpairs, rfl⟩, rfl, -⟩ := hfields
  exact ⟨payload, pairs, hmessage, hpairs, rfl⟩

/-- Every frame that is read off a stream and parsed is parsed to its last byte, exactly if no
length that it declares is longer than the fields that it is declared for. -/
theorem parsedExactly_iff {s t : ByteStream} {b : Bytes} (h : readMessageFrame.Returns s b t) :
    ParsedExactly b ↔ LengthsAgree b := by
  obtain ⟨_, ⟨rfl, msgType, payload, hframe⟩, -⟩ := (readMessageFrame_reads s b t).mp h
  have whole : ∀ {type p r}, decodeMessage.Returns b (type, p) r → Frames type p b := by
    intro type p r hmessage
    obtain ⟨heq, rfl⟩ := hmessage.unique (decodeMessage_whole_iff.mpr hframe)
    exact decodeMessage_whole_iff.mp hmessage
  constructor
  · intro hparsed m regions w left hlayout hframes
    have hstarts : m.StartsPayload (w ++ left) := ⟨regions, w, left, hlayout, rfl⟩
    have hparse := RequestMessage.parse_iff.mpr
      ⟨_, decodeMessage_whole_iff.mpr hframes, hstarts⟩
    obtain ⟨payload', regions', hframes', hlayout', hexact⟩ := hparsed.request m [] hparse
    obtain ⟨-, rfl⟩ := hframes.unique hframes'
    obtain ⟨rfl, hw⟩ := hlayout.append_inj hlayout' (List.append_nil (w ++ left)).symm
    exact List.forall_mem_cons.mpr ⟨congrArg List.length hw.symm, hexact⟩
  · intro hagree
    constructor
    · intro m rest hparse
      obtain ⟨_, hmessage, regions, w, left, hlayout, rfl⟩ := RequestMessage.parse_iff.mp hparse
      have hframes := whole hmessage
      obtain ⟨hlength, hexact⟩ :=
        List.forall_mem_cons.mp (hagree m regions w left hlayout hframes)
      obtain rfl : left = [] := by
        have hsum : (w ++ left).length = w.length := hlength
        rw [List.length_append] at hsum
        exact List.eq_nil_of_length_eq_zero (by omega)
      rw [List.append_nil] at hframes
      exact ⟨w, regions, hframes, hlayout, hexact⟩
    · intro m rest hdecode
      obtain ⟨p, pairs, hmessage, hpairs, hoptions⟩ := SetupMessage.exact hdecode
      exact ⟨p, pairs, whole hmessage, hpairs, hoptions⟩

theorem layout_requestOk : (RequestMessage.requestOk {}).Layout [] [0] :=
  ⟨[], [], 0, [0], [], show IsVarint 0 [0] by decide, rfl, .nil 0, rfl, rfl⟩

/-- A REQUEST_OK without parameters has only the byte of their count. -/
theorem parsedExactly_requestOk : ParsedExactly [0x07, 0, 1, 0] := by
  have hread : readMessageFrame.Returns ⟨[0x07, 0, 1, 0], .finished, by decide⟩ [0x07, 0, 1, 0]
      ⟨[], .finished, by decide⟩ := by
    decide
  have hframe : Frames MSG_REQUEST_OK [0] [0x07, 0, 1, 0] :=
    ⟨[0x07], 0, 1, by decide, rfl, rfl⟩
  refine (parsedExactly_iff hread).mpr fun m regions w left hlayout hframes => ?_
  obtain ⟨htype, hpayload⟩ := hframes.unique hframe
  cases m with
  | requestOk m =>
    obtain ⟨rfl, rfl⟩ := hlayout.append_inj layout_requestOk
      (hpayload.trans (List.append_nil [0]).symm)
    rw [hpayload]
    simp [Region.Exact]
  | publishNamespace m | subscribe m | subscribeOk m | requestError m | publishDone m =>
    simp only [RequestMessage.msgType] at htype
    exact absurd htype (by decide)

/-- A REQUEST_OK with a byte behind the count of its parameters. -/
def paddedRequestOk : Bytes := [0x07, 0, 2, 0, 0xff]

/-- It is read and parsed, and the byte is not. -/
theorem not_parsedExactly_paddedRequestOk :
    ¬∀ (s t : ByteStream) b, readMessageFrame.Returns s b t → ParsedExactly b := by
  intro h
  have hparsed := h ⟨paddedRequestOk, .finished, by decide⟩ ⟨[], .finished, by decide⟩
    paddedRequestOk (by decide)
  obtain ⟨payload, regions, hframes, hlayout, -⟩ :=
    hparsed.request (.requestOk {}) [] (by decide)
  have hframe : Frames MSG_REQUEST_OK [0, 0xff] paddedRequestOk :=
    ⟨[0x07], 0, 2, by decide, rfl, rfl⟩
  obtain ⟨-, rfl⟩ := hframes.unique hframe
  obtain ⟨-, hlength⟩ := layout_requestOk.append_inj hlayout (List.append_nil [0, 0xff]).symm
  exact absurd hlength (by decide)

end Moqt.Wire
