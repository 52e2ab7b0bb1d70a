import Moqt.Wire.Accepted
import Moqt.Relay.World

/-! The SUBSCRIBE that the relay sends upstream for the one that it has accepted.  It has a request
id of the relay's own, which may be longer than the subscriber's. -/

namespace Moqt.Relay

open Library Decoder Wire

/-- The request id that the allocator of a server returns after `n` others. -/
def serverRequestId (n : Nat) : UInt64 := (· + 2)^[n] 1

/-- The name goes upstream as it came. -/
theorem trackName_of_trackOf {m : SubscribeMessage} {track : FullTrackName}
    (h : World.trackOf m = some track) : track.name.toUTF8.data.toList = m.trackName := by
  obtain ⟨name, hname, rfl⟩ := Option.map_eq_some_iff.mp h
  unfold String.fromUTF8? at hname
  split at hname
  · obtain rfl := Option.some.inj hname
    rfl
  · cases hname

theorem filters_of_hasUnsupportedFilter {m : SubscribeMessage}
    (h : World.hasUnsupportedFilter m = false) (f : SubscriptionFilter)
    (hf : MessageParameter.subscriptionFilter f ∈ m.parameters) : f = .nextGroupStart := by
  have hp := List.any_eq_false.mp h _ hf
  simpa using hp

theorem subscribe_of_parse {b rest : Bytes} {m : SubscribeMessage}
    (h : parseRequestMessage.Returns b (.subscribe m) rest) :
    SubscribeMessage.decode.Returns b m rest := by
  obtain ⟨msgType, left, -, hrequest⟩ := RequestMessage.returns_parse_iff.mp h
  simp only [decodeRequest, returns_ite, returns_bind, returns_pure, returns_bail, reduceCtorEq,
    false_and, and_false, exists_false, or_false, false_or, RequestMessage.subscribe.injEq,
    beq_iff_eq] at hrequest
  obtain ⟨-, -, _, _, hdecode, rfl, rfl⟩ := hrequest
  exact hdecode

/-- The SUBSCRIBE `m` with a request id of the relay's own. -/
def forwarded (m : SubscribeMessage) (requestId : UInt64) : SubscribeMessage :=
  { m with requestId, requiredRequestIdDelta := 0 }

theorem upstreamSubscribe_eq {m : SubscribeMessage} {track : FullTrackName}
    (h : World.trackOf m = some track) (requestId : UInt64) :
    World.upstreamSubscribe m track requestId = forwarded m requestId := by
  rw [World.upstreamSubscribe, trackName_of_trackOf h, forwarded]

/-- What the relay sends for `m` is encoded without an error, and decoded as `m` with the relay's
request id. -/
def ForwardedFaithfully (m : SubscribeMessage) (track : FullTrackName) (requestId : UInt64) :
    Prop :=
  ∃ frame, (World.upstreamSubscribe m track requestId).encode = .ok frame ∧
    ∃ rest, SubscribeMessage.decode.Returns frame (forwarded m requestId) rest

/-- An accepted SUBSCRIBE is forwarded faithfully exactly if it still fits a frame with the relay's
request id. -/
theorem forwardedFaithfully_iff {b rest : Bytes} {m : SubscribeMessage} {track : FullTrackName}
    (h : parseRequestMessage.Returns b (.subscribe m) rest)
    (hname : World.trackOf m = some track) (hfilters : World.hasUnsupportedFilter m = false)
    (n : Nat) :
    ForwardedFaithfully m track (serverRequestId n) ↔
      (forwarded m (serverRequestId n)).payloadSize ≤ maxPayload := by
  obtain ⟨hvalid, hsorted, -⟩ := SubscribeMessage.of_returns (subscribe_of_parse h)
  rw [ForwardedFaithfully, upstreamSubscribe_eq hname]
  constructor
  · rintro ⟨frame, -, rest, hread⟩
    exact (SubscribeMessage.of_returns hread).2.2
  · intro hsize
    obtain ⟨ns, hns⟩ := exists_encodeTrackNamespace hvalid.count hvalid.nonempty
    obtain ⟨params, hparams⟩ :=
      exists_encodeParameters ⟨hsorted, filters_of_hasUnsupportedFilter hfilters⟩
    have hencode : ∃ frame, (forwarded m (serverRequestId n)).encode = .ok frame :=
      ⟨_, ok_bind.mpr ⟨ns, hns, ok_bind.mpr ⟨params, hparams, rfl⟩⟩⟩
    obtain ⟨frame, hframe⟩ := hencode
    exact ⟨frame, hframe, [], (((forwarded m _).emits hframe).takes hsize).returns⟩

/-- A SUBSCRIBE for the empty name in a namespace of one field. -/
def fieldSubscribe (field : Bytes) : SubscribeMessage := ⟨0, 0, ⟨[field]⟩, [], []⟩

theorem trackOf_fieldSubscribe (field : Bytes) :
    World.trackOf (fieldSubscribe field) = some ⟨⟨[field]⟩, ""⟩ := rfl

theorem exists_field : ∃ field : Bytes, field.length = 65527 :=
  ⟨List.replicate 65527 0x61, List.length_replicate⟩

section FullFrame

variable {field : Bytes} (hfield : field.length = 65527)

include hfield

/-- With a request id of one byte it fills its frame to the last byte. -/
theorem payloadSize_fieldSubscribe (requestId : UInt64) :
    (forwarded (fieldSubscribe field) requestId).payloadSize = varintSize requestId + 65534 := by
  show varintSize requestId + 1 + (1 + (blockSize field + 0)) + 1 + 1 = _
  have hblock : blockSize field = 65530 := by
    rw [blockSize, hfield]
    rfl
  omega

theorem parse_fieldSubscribe :
    ∃ b, parseRequestMessage.Returns b (.subscribe (fieldSubscribe field)) [] := by
  have hlimits : (RequestMessage.subscribe (fieldSubscribe field)).WithinLimits := by
    refine ⟨⟨Nat.le_add_left 1 31, ?_⟩, ⟨.nil, by simp [fieldSubscribe]⟩, nofun, ?_⟩
    · intro other hother
      obtain rfl := List.mem_singleton.mp hother
      exact List.ne_nil_of_length_pos (hfield ▸ by decide)
    · exact (payloadSize_fieldSubscribe hfield 0).trans_le (by decide)
  obtain ⟨frame, hframe⟩ := hlimits.exists_encode
  have htakes := RequestMessage.takes hframe hlimits.payload hlimits.reasonPhrase
  exact ⟨frame, RequestMessage.returns_parseRequestMessage hframe htakes.returns⟩

end FullFrame

/-- With the relay's request id 129, which takes two bytes, it does not fit a frame. -/
theorem not_forwardedFaithfully_fieldSubscribe :
    ¬∀ b rest m track n, parseRequestMessage.Returns b (.subscribe m) rest →
      World.trackOf m = some track → World.hasUnsupportedFilter m = false →
      ForwardedFaithfully m track (serverRequestId n) := by
  intro h
  obtain ⟨field, hfield⟩ := exists_field
  obtain ⟨b, hparse⟩ := parse_fieldSubscribe hfield
  obtain ⟨frame, -, rest, hread⟩ := h b [] _ _ 64 hparse (trackOf_fieldSubscribe _) rfl
  have hsize := (SubscribeMessage.of_returns hread).2.2
  have hid : varintSize (serverRequestId 64) = 2 := by decide +kernel
  rw [payloadSize_fieldSubscribe hfield, hid, maxPayload] at hsize
  omega

/-- With the request id 1 it does. -/
theorem forwardedFaithfully_fieldSubscribe :
    ∃ field : Bytes, field.length = 65527 ∧
      ForwardedFaithfully (fieldSubscribe field) ⟨⟨[field]⟩, ""⟩ (serverRequestId 0) := by
  obtain ⟨field, hfield⟩ := exists_field
  obtain ⟨b, hparse⟩ := parse_fieldSubscribe hfield
  refine ⟨field, hfield, ?_⟩
  refine (forwardedFaithfully_iff hparse (trackOf_fieldSubscribe field) rfl 0).mpr ?_
  have hid : varintSize (serverRequestId 0) = 1 := by decide
  rw [payloadSize_fieldSubscribe hfield, hid, maxPayload]

end Moqt.Relay
