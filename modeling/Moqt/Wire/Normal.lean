import Moqt.Wire.Exact

/-! Decoding and encoding again.  The decoders accept longer varints than they have to, bytes behind
the fields, and parameters that they skip; what they return of it is within the limits of the
encoders, and takes no more bytes. -/

namespace Moqt.Wire

open Library Decoder

/-! ### Frames -/

theorem length_encodeMessage_add_le {b payload shorter rest : Bytes} {msgType : UInt64}
    (h : decodeMessage.Returns b (msgType, payload) rest)
    (hle : shorter.length ≤ payload.length) :
    (encodeMessage msgType shorter).length + rest.length ≤ b.length := by
  obtain ⟨w, high, low, hw, -, rfl⟩ := decodeMessage_iff.mp h
  have hsize := length_encodeVarint_le hw
  simp only [encodeMessage_eq, lengthBytes, List.length_append, List.length_cons, List.length_nil]
  omega

/-- A message whose fields fit the payload that they were read from fits the frame. -/
theorem rewrites_of_emits {α : Type} {msgType : UInt64} {name : String} {fields : Decoder α}
    {encode : α → Outcome Bytes}
    (h : ∀ payload a left, payload.length ≤ maxPayload → fields.Returns payload a left →
      ∃ frame size, encode a = .ok frame ∧
        Emits msgType (decodeFrame msgType name fields) size frame a ∧ size ≤ payload.length) :
    (decodeFrame msgType name fields).Rewrites encode := by
  intro b a rest hreturns
  obtain ⟨payload, left, hmessage, hfields⟩ := payload_of_decodeFrame hreturns
  obtain ⟨-, hmax⟩ := decodeMessage_length hmessage
  obtain ⟨frame, size, hframe, hemits, hsize⟩ := h payload a left hmax hfields
  have htakes := hemits.takes (hsize.trans hmax)
  obtain ⟨shorter, rfl, rfl, -⟩ := hemits
  exact ⟨_, hframe, length_encodeMessage_add_le hmessage hsize, htakes.returns⟩

/-! ### Reason phrases -/

theorem LengthPrefixed.blockSize_le {bytes w : Bytes} (h : LengthPrefixed bytes w) :
    blockSize bytes ≤ w.length := by
  obtain ⟨len, c, hc, hlen, rfl⟩ := h
  have hsize := length_encodeVarint_le hc
  rw [length_encodeVarint] at hsize
  rw [blockSize, toUInt64_length hlen.symm, List.length_append]
  omega

theorem ReasonLayout.size_le {a b : UInt64} {rp : ReasonPhrase} {w : Bytes}
    (h : ReasonLayout a b rp w) : varintSize a + varintSize b + blockSize rp.value ≤ w.length := by
  obtain ⟨u, v, t, hu, hv, ⟨-, ht⟩, rfl⟩ := h
  have h1 := length_encodeVarint_le hu
  have h2 := length_encodeVarint_le hv
  have h3 := ht.blockSize_le
  rw [length_encodeVarint] at h1 h2
  simp only [List.length_append]
  omega

/-- REQUEST_ERROR and PUBLISH_DONE. -/
theorem rewrites_reasonFrame {α : Type} {msgType : UInt64} {name : String}
    {f : UInt64 → UInt64 → ReasonPhrase → α} {encode : α → Bytes}
    (hencode : ∀ a b rp, encode (f a b rp) = encodeMessage msgType (reasonPayload a b rp)) :
    (decodeFrame msgType name (decodeReasonPayload f)).Rewrites fun m => .ok (encode m) := by
  refine rewrites_of_emits fun payload m left _ hfields => ?_
  obtain ⟨a, b, rp, w, hlayout, rfl, rfl⟩ := returns_decodeReasonPayload.mp hfields
  have hsize := hlayout.size_le
  obtain ⟨-, -, -, -, -, ⟨hmax, -⟩, -⟩ := hlayout
  refine ⟨_, _, rfl, ⟨_, hencode a b rp, length_reasonPayload, fun hlen => ?_⟩, ?_⟩
  · rw [hencode]
    exact takes_decodeFrame [] hlen (takes_decodeReasonPayload f hmax).returns
  · rw [List.length_append]
    omega

theorem RequestErrorMessage.decode_rewrites :
    RequestErrorMessage.decode.Rewrites fun m => .ok m.encode :=
  rewrites_reasonFrame (f := RequestErrorMessage.mk) fun _ _ _ => rfl

theorem PublishDoneMessage.decode_rewrites :
    PublishDoneMessage.decode.Rewrites fun m => .ok m.encode :=
  rewrites_reasonFrame (f := PublishDoneMessage.mk) fun _ _ _ => rfl

/-! ### PUBLISH_NAMESPACE -/

/-- The decoder drops the parameters that it has read, and the encoder writes none. -/
theorem PublishNamespaceMessage.decode_rewrites :
    PublishNamespaceMessage.decode.Rewrites PublishNamespaceMessage.encode := by
  refine rewrites_of_emits fun payload m left _ hfields => ?_
  simp only [returns_bind, returns_pure] at hfields
  obtain ⟨requestId, r1, hid, delta, r2, hdelta, ns, r3, hns, params, r4, hparams, rfl, -⟩ := hfields
  have h1 := varintSize_add_le hid
  have h2 := varintSize_add_le hdelta
  obtain ⟨hvalid, h3⟩ := namespace_of_returns hns
  have h4 := (parameters_of_returns hparams).2
  have hnone : parametersSize [] ≤ parametersSize params :=
    Nat.le_add_right_of_le (varintSize_pos _)
  obtain ⟨words, hwords⟩ := exists_encodeTrackNamespace hvalid.count hvalid.nonempty
  obtain ⟨none, hencoded⟩ : ∃ w, encodeParameters [] = .ok w :=
    exists_encodeParameters ⟨.nil, by simp⟩
  have hframe : ∃ frame, encode ⟨requestId, delta, ns⟩ = .ok frame :=
    ⟨_, ok_bind.mpr ⟨words, hwords, ok_bind.mpr ⟨none, hencoded, rfl⟩⟩⟩
  obtain ⟨frame, hframe⟩ := hframe
  refine ⟨frame, _, hframe, emits hframe, ?_⟩
  simp only [payloadSize]
  omega

/-! ### SETUP -/

theorem KvValue.IsEncoded.kindFits {typeId : UInt64} {value : KvValue} {w : Bytes}
    (h : value.IsEncoded typeId w) : KeyValuePair.kindFits ⟨typeId, value⟩ := by
  cases value with
  | varint | bytes => exact h.1

theorem KvValue.IsEncoded.size_le {typeId : UInt64} {value : KvValue} {w : Bytes}
    (h : value.IsEncoded typeId w) : kvValueSize value ≤ w.length := by
  cases value with
  | varint value => exact (length_encodeVarint value).ge.trans (length_encodeVarint_le h.2)
  | bytes value => exact h.2.2.blockSize_le

/-- The pairs are in the order in which their types were added up, each with a value of the kind of
its type, and their shortest encoding is no longer than the bytes. -/
structure ReadPairs (prev : UInt64) (pairs : List KeyValuePair) (taken : Nat) : Prop where
  above : ∀ pair ∈ pairs, prev ≤ pair.typeId
  sorted : (pairs.map KeyValuePair.typeId).Pairwise (· ≤ ·)
  kinds : ∀ pair ∈ pairs, pair.kindFits
  values : ∀ pair ∈ pairs, ∀ value, pair.value = .bytes value →
    value.length ≤ MAX_VALUE_LENGTH.toNat
  size : keyValuePairsSizeFrom prev pairs ≤ taken

theorem Pairs.read {prev : UInt64} {b : Bytes} {pairs : List KeyValuePair}
    (h : Pairs prev b pairs) : ReadPairs prev pairs b.length := by
  induction h with
  | nil prev => exact ⟨by simp, .nil, by simp, by simp, Nat.le_refl 0⟩
  | @cons prev delta value pairs d v rest hdelta hfits hvalue _ ih =>
    obtain ⟨habove, hsorted, hkinds, hvalues, hsize⟩ := ih
    obtain ⟨hdiff, hprev⟩ := eq_sub hfits rfl
    refine ⟨?_, ?_, List.forall_mem_cons.mpr ⟨hvalue.kindFits, hkinds⟩,
      List.forall_mem_cons.mpr ⟨?_, hvalues⟩, ?_⟩
    · refine List.forall_mem_cons.mpr ⟨hprev, fun pair hpair => ?_⟩
      exact UInt64.le_trans hprev (habove pair hpair)
    · rw [List.map_cons, List.pairwise_cons]
      exact ⟨List.forall_mem_map.mpr habove, hsorted⟩
    · rintro bytes rfl
      exact hvalue.2.1
    · have h1 := length_encodeVarint_le hdelta
      have h2 := hvalue.size_le
      rw [length_encodeVarint] at h1
      simp only [keyValuePairsSizeFrom, ← hdiff, List.length_append]
      omega

/-- A type of a path or an authority is odd, so that its value is not a number. -/
theorem SetupOption.ofKeyValuePair_named {pair : KeyValuePair} (h : pair.kindFits) {typeId : UInt64}
    {value : KvValue} (heq : ofKeyValuePair pair = .unknown typeId value) :
    typeId ≠ OPTION_PATH ∧ typeId ≠ OPTION_AUTHORITY := by
  obtain ⟨pairType, pairValue⟩ := pair
  have htype : typeId = pairType := by
    have hback := toKeyValuePair_ofKeyValuePair ⟨pairType, pairValue⟩
    rw [heq] at hback
    exact congrArg KeyValuePair.typeId hback
  subst htype
  cases pairValue with
  | varint n =>
    have heven : typeId % 2 = 0 := h
    constructor
    · rintro rfl
      exact absurd heven (by decide)
    · rintro rfl
      exact absurd heven (by decide)
  | bytes bytes =>
    constructor
    · rintro rfl
      cases heq
    · rintro rfl
      cases heq

theorem Pairs.payloadSize_le {payload : Bytes} {pairs : List KeyValuePair}
    (h : Pairs 0 payload pairs) :
    (SetupMessage.mk (pairs.map SetupOption.ofKeyValuePair)).payloadSize ≤ payload.length := by
  rw [SetupMessage.payloadSize, map_toKeyValuePair]
  exact h.read.size

theorem Pairs.withinLimits {payload : Bytes} {pairs : List KeyValuePair} (h : Pairs 0 payload pairs)
    (hmax : payload.length ≤ maxPayload) :
    (SetupMessage.mk (pairs.map SetupOption.ofKeyValuePair)).WithinLimits := by
  have hread := h.read
  refine ⟨?_, ?_, ?_, ?_, ?_⟩
  · simpa [List.map_map, Function.comp_def, toKeyValuePair_ofKeyValuePair] using hread.sorted
  · simpa [List.forall_mem_map, toKeyValuePair_ofKeyValuePair] using hread.kinds
  · simpa [List.forall_mem_map, toKeyValuePair_ofKeyValuePair] using hread.values
  · intro typeId value hmem
    obtain ⟨pair, hpair, heq⟩ := List.mem_map.mp hmem
    exact SetupOption.ofKeyValuePair_named (hread.kinds pair hpair) heq
  · exact h.payloadSize_le.trans hmax

/-- An accepted SETUP is within the limits of the encoder. -/
theorem SetupMessage.withinLimits_of_returns {b rest : Bytes} {m : SetupMessage}
    (h : SetupMessage.decode.Returns b m rest) : m.WithinLimits := by
  obtain ⟨payload, pairs, hmessage, hpairs, hoptions⟩ := SetupMessage.exact h
  obtain rfl : m = ⟨pairs.map SetupOption.ofKeyValuePair⟩ := by
    cases m
    exact congrArg SetupMessage.mk hoptions
  exact hpairs.withinLimits (decodeMessage_length hmessage).2

theorem SetupMessage.decode_rewrites : SetupMessage.decode.Rewrites SetupMessage.encode := by
  refine rewrites_of_emits fun payload m left hmax hfields => ?_
  simp only [returns_bind, returns_pure, decodeKeyValuePairs_iff] at hfields
  obtain ⟨pairs, _, ⟨hpairs, rfl⟩, rfl, -⟩ := hfields
  have hlimits := hpairs.withinLimits hmax
  obtain ⟨frame, hframe⟩ := hlimits.exists_encode
  have hemits := emits hframe
  rw [hlimits.readBack_eq] at hemits
  exact ⟨frame, _, hframe, hemits, hpairs.payloadSize_le⟩

/-! ### Messages that have been read -/

/-- The message has been read: it is what the parser returns for some bytes. -/
def RequestMessage.Read (m : RequestMessage) : Prop :=
  ∃ b rest, parseRequestMessage.Returns b m rest

namespace RequestMessage.Read

/-- A SUBSCRIBE_OK that has been read is within the limits, if the encoder takes it. -/
theorem subscribeOk {ok : SubscribeOkMessage} {frame : Bytes}
    (h : (RequestMessage.subscribeOk ok).Read) (hencode : ok.encode = .ok frame) :
    (RequestMessage.subscribeOk ok).WithinLimits := by
  obtain ⟨b, rest, hparse⟩ := h
  have hdecode : SubscribeOkMessage.decode.Returns b ok rest :=
    SubscribeOkMessage.returns_iff.mpr (parse_iff.mp hparse)
  obtain ⟨hsorted, hmax, -⟩ := SubscribeOkMessage.payloadSize_le hdecode
  obtain ⟨params, hparams, -⟩ := ok_bind.mp hencode
  obtain ⟨body, hbody, -⟩ := ok_bind.mp hparams
  exact ⟨trivial, ⟨hsorted, filters_of_encodeParametersFrom hbody⟩, nofun, hmax⟩

/-- A PUBLISH_DONE that has been read is within the limits. -/
theorem publishDone {done : PublishDoneMessage} (h : (RequestMessage.publishDone done).Read) :
    (RequestMessage.publishDone done).WithinLimits := by
  obtain ⟨b, rest, hparse⟩ := h
  obtain ⟨payload, hmessage, regions, w, left, ⟨hlayout, -⟩, rfl⟩ := parse_iff.mp hparse
  obtain ⟨-, hmax⟩ := decodeMessage_length hmessage
  have hsize := hlayout.size_le
  obtain ⟨-, -, -, -, -, ⟨hreason, -⟩, -⟩ := hlayout
  refine ⟨trivial, trivial, ?_, ?_⟩
  · rintro rp ⟨⟩
    exact hreason
  · show PublishDoneMessage.payloadSize done ≤ _
    rw [List.length_append] at hmax
    simp only [PublishDoneMessage.payloadSize]
    omega

end RequestMessage.Read

/-! ### The messages -/

/-- Decoding and encoding again is a normalisation: it can be done with whatever is accepted, takes
no more bytes, keeps what they say, and done a second time changes nothing. -/
structure Normalises {α : Type} (d : Decoder α) (encode : α → Outcome Bytes) : Prop where
  rewrites : d.Rewrites encode
  again : ∀ b w, d.normalise encode b = .ok w → d.normalise encode w = .ok w

theorem normalises_of_rewrites {α : Type} {d : Decoder α} {encode : α → Outcome Bytes}
    (h : d.Rewrites encode) : Normalises d encode :=
  ⟨h, fun _ _ => h.normalise_normal⟩

/-- An accepted SETUP has its options in the order of their types, with values of the kinds of
these, and no path or authority under another name. -/
theorem messages_normalise :
    Normalises SetupMessage.decode SetupMessage.encode ∧
    Normalises PublishNamespaceMessage.decode PublishNamespaceMessage.encode ∧
    Normalises RequestErrorMessage.decode (fun m => .ok m.encode) ∧
    Normalises PublishDoneMessage.decode (fun m => .ok m.encode) ∧
    ∀ b m rest, SetupMessage.decode.Returns b m rest → m.WithinLimits :=
  ⟨normalises_of_rewrites SetupMessage.decode_rewrites,
    normalises_of_rewrites PublishNamespaceMessage.decode_rewrites,
    normalises_of_rewrites RequestErrorMessage.decode_rewrites,
    normalises_of_rewrites PublishDoneMessage.decode_rewrites,
    fun _ _ _ => SetupMessage.withinLimits_of_returns⟩

end Moqt.Wire
