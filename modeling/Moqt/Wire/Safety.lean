import Moqt.Wire.Message

/-! What one control frame can make the decoders do.  Lengths and counts in a frame are 64-bit
values of the sender's choice; every one of them but the count of a parameter list is compared with
the bytes that are there, or with a fixed maximum, before it is used. -/

namespace Moqt.Wire

open Library

/-! ### Frames and their payloads -/

theorem decodeMessage_within {room count : Nat} {b : Bytes} (hb : b.length ≤ count) :
    decodeMessage.Within room count b := by
  refine (decodeVarint_within hb).bind fun msgType r _ _ => ?_
  refine (Decoder.Within.ensureLen _ _).bind fun _ r hr _ => ?_
  obtain ⟨htwo, rfl⟩ := Decoder.returns_ensureLen.mp hr
  refine (Decoder.Within.slice htwo).bind fun lenBytes r hr _ => ?_
  obtain ⟨-, -, rfl⟩ := Decoder.returns_slice.mp hr
  refine (Decoder.Within.advance htwo).bind fun _ r _ _ => ?_
  refine (Decoder.Within.ensureLen _ _).bind fun _ r hr _ => ?_
  obtain ⟨hlen, rfl⟩ := Decoder.returns_ensureLen.mp hr
  refine (Decoder.Within.slice hlen).bind fun payload r hr _ => ?_
  obtain ⟨-, -, rfl⟩ := Decoder.returns_slice.mp hr
  exact (Decoder.Within.advance hlen).bind fun _ _ _ _ => Decoder.Within.pure _

/-- A frame is at least three bytes longer than its payload. -/
theorem decodeMessage_payload {b r : Bytes} {p : UInt64 × Bytes}
    (h : decodeMessage.Returns b p r) : p.2.length + 3 ≤ b.length := by
  simp only [decodeMessage, Decoder.returns_bind, Decoder.returns_ensureLen,
    Decoder.returns_slice, Decoder.returns_advance, Decoder.returns_pure] at h
  obtain ⟨msgType, mid, htype, -, _, ⟨htwo, rfl⟩, lenBytes, _, ⟨-, -, rfl⟩, -, _, ⟨-, rfl⟩, -, _,
    ⟨hlen, rfl⟩, payload, _, ⟨-, rfl, rfl⟩, -, _, -, rfl, -⟩ := h
  have := decodeVarint_takes htype
  simp only [List.length_take, List.length_drop] at hlen ⊢
  omega

/-- The frame adds nothing to what the decoder of its payload does. -/
theorem decodeFrame_within {α : Type} {room count : Nat} {expected : UInt64} {name : String}
    {fields : Decoder α} {b : Bytes} (hb : b.length ≤ count)
    (hfields : ∀ payload r, decodeMessage.Returns b (expected, payload) r →
      fields.Within room count payload) :
    (decodeFrame expected name fields).Within room count b := by
  refine (decodeMessage_within hb).bind fun p r hp _ => ?_
  obtain ⟨msgType, payload⟩ := p
  refine (Decoder.Within.ensure _ _).bind fun _ r' hr _ => ?_
  obtain ⟨htype, rfl⟩ := Decoder.returns_ensure.mp hr
  obtain rfl : msgType = expected := by simpa using htype
  exact (Decoder.Within.onSlice (hfields payload _ hp)).bind fun _ _ _ _ => Decoder.Within.pure _

theorem decodeBytes_within {room count : Nat} (m : String) {b : Bytes} (hb : b.length ≤ count) :
    (decodeBytes m).Within room count b := by
  refine (decodeVarint_within hb).bind fun len r _ _ => ?_
  refine (Decoder.Within.ensureLen _ _).bind fun _ r hr _ => ?_
  obtain ⟨hlen, rfl⟩ := Decoder.returns_ensureLen.mp hr
  refine (Decoder.Within.slice hlen).bind fun bytes r hr _ => ?_
  obtain ⟨-, -, rfl⟩ := Decoder.returns_slice.mp hr
  exact (Decoder.Within.advance hlen).bind fun _ _ _ _ => Decoder.Within.pure _

theorem SetupMessage.decode_within {room count : Nat} {b : Bytes} (hb : b.length ≤ count) :
    SetupMessage.decode.Within room count b := by
  refine decodeFrame_within hb fun payload r h => ?_
  have := decodeMessage_payload h
  exact (decodeKeyValuePairs_within (by simp only at this; omega)).bind
    fun _ _ _ _ => Decoder.Within.pure _

theorem RequestErrorMessage.decode_within {room count : Nat} {b : Bytes} (hb : b.length ≤ count) :
    RequestErrorMessage.decode.Within room count b := by
  refine decodeFrame_within hb fun payload r h => ?_
  have hpayload : payload.length + 3 ≤ b.length := decodeMessage_payload h
  refine (decodeVarint_within (by omega)).bind fun errorCode r _ hr => ?_
  refine (decodeVarint_within (by omega)).bind fun retryInterval r' _ hr' => ?_
  exact (decodeReasonPhrase_within (by omega)).bind fun _ _ _ _ => Decoder.Within.pure _

theorem PublishDoneMessage.decode_within {room count : Nat} {b : Bytes} (hb : b.length ≤ count) :
    PublishDoneMessage.decode.Within room count b := by
  refine decodeFrame_within hb fun payload r h => ?_
  have hpayload : payload.length + 3 ≤ b.length := decodeMessage_payload h
  refine (decodeVarint_within (by omega)).bind fun statusCode r _ hr => ?_
  refine (decodeVarint_within (by omega)).bind fun streamCount r' _ hr' => ?_
  exact (decodeReasonPhrase_within (by omega)).bind fun _ _ _ _ => Decoder.Within.pure _

/-! ### The count of a parameter list -/

/-- The fields of a message in front of its parameter list. -/
def skipToParameters (msgType : UInt64) : Decoder Unit := do
  if msgType == MSG_PUBLISH_NAMESPACE then
    let _ ← decodeVarint
    let _ ← decodeVarint
    let _ ← decodeTrackNamespace
  else if msgType == MSG_SUBSCRIBE then
    let _ ← decodeVarint
    let _ ← decodeVarint
    let _ ← decodeTrackNamespace
    let _ ← decodeBytes "track name truncated"
  else if msgType == MSG_SUBSCRIBE_OK then
    let _ ← decodeVarint
  else if msgType == MSG_REQUEST_OK then
    pure ()
  else
    Decoder.bail "no parameters"

/-- The count that a frame puts in front of its parameter list. -/
def declaredParameterCount : Decoder UInt64 := do
  let (msgType, payload) ← decodeMessage
  let (count, _) ← Decoder.onSlice payload do
    skipToParameters msgType
    decodeVarint
  return count

theorem returns_declaredParameterCount {b r payload mid rest : Bytes} {msgType count : UInt64}
    (hframe : decodeMessage.Returns b (msgType, payload) r)
    (hskip : (skipToParameters msgType).Returns payload () mid)
    (hcount : decodeVarint.Returns mid count rest) :
    declaredParameterCount.Returns b count r := by
  simp only [declaredParameterCount, Decoder.returns_bind, Decoder.returns_onSlice,
    Decoder.returns_pure]
  exact ⟨_, _, hframe, (count, rest), _, ⟨⟨(), mid, hskip, hcount⟩, rfl⟩, rfl, rfl⟩

/-- Vectors of at most `room` elements hold the parameters that the frame `b` declares. -/
def ParametersFit (room : Nat) (b : Bytes) : Prop :=
  ∀ count r, declaredParameterCount.Returns b count r →
    count.toNat ≤ room ∧ count.toNat * sizeOfMessageParameter ≤ isizeMax

section Parameters

variable {room count : Nat} {b : Bytes} (hb : b.length ≤ count) (hfit : ParametersFit room b)

include hfit in
/-- The parameter list of a frame whose parameters fit is read within the bounds. -/
theorem ParametersFit.decodeParameters_within {payload r mid : Bytes} {msgType : UInt64}
    (hframe : decodeMessage.Returns b (msgType, payload) r)
    (hskip : (skipToParameters msgType).Returns payload () mid) (hmid : mid.length ≤ count) :
    decodeParameters.Within room count mid :=
  Wire.decodeParameters_within hmid fun _ _ hn =>
    hfit _ _ (returns_declaredParameterCount hframe hskip hn)

include hb hfit

theorem RequestOkMessage.decode_within : RequestOkMessage.decode.Within room count b := by
  refine decodeFrame_within hb fun payload r h => ?_
  have hpayload : payload.length + 3 ≤ b.length := decodeMessage_payload h
  have hskip : (skipToParameters MSG_REQUEST_OK).Returns payload () payload := ⟨rfl, rfl⟩
  exact (hfit.decodeParameters_within h hskip (by omega)).bind
    fun _ _ _ _ => Decoder.Within.pure _

theorem SubscribeOkMessage.decode_within : SubscribeOkMessage.decode.Within room count b := by
  refine decodeFrame_within hb fun payload r h => ?_
  have hpayload : payload.length + 3 ≤ b.length := decodeMessage_payload h
  refine (decodeVarint_within (by omega)).bind fun trackAlias r1 h1 hr1 => ?_
  have hskip : (skipToParameters MSG_SUBSCRIBE_OK).Returns payload () r1 :=
    Decoder.returns_bind.mpr ⟨trackAlias, r1, h1, rfl, rfl⟩
  refine (hfit.decodeParameters_within h hskip (by omega)).bind fun params r2 _ hr2 => ?_
  refine (decodeVarint_within (by omega)).bind fun propsLen r3 _ _ => ?_
  refine (Decoder.Within.ensureLen _ _).bind fun _ r hr _ => ?_
  obtain ⟨hlen, rfl⟩ := Decoder.returns_ensureLen.mp hr
  exact (Decoder.Within.slice hlen).bind fun _ _ _ _ => Decoder.Within.pure _

variable (hroom : MAX_FIELDS.toNat ≤ room)

include hroom

theorem PublishNamespaceMessage.decode_within :
    PublishNamespaceMessage.decode.Within room count b := by
  refine decodeFrame_within hb fun payload r h => ?_
  have hpayload : payload.length + 3 ≤ b.length := decodeMessage_payload h
  refine (decodeVarint_within (by omega)).bind fun requestId r1 h1 hr1 => ?_
  refine (decodeVarint_within (by omega)).bind fun delta r2 h2 hr2 => ?_
  refine (decodeTrackNamespace_within hroom (by omega)).bind fun ns r3 h3 hr3 => ?_
  have hskip : (skipToParameters MSG_PUBLISH_NAMESPACE).Returns payload () r3 :=
    Decoder.returns_bind.mpr ⟨requestId, r1, h1, Decoder.returns_bind.mpr ⟨delta, r2, h2,
      Decoder.returns_bind.mpr ⟨ns, r3, h3, rfl, rfl⟩⟩⟩
  exact (hfit.decodeParameters_within h hskip (by omega)).bind
    fun _ _ _ _ => Decoder.Within.pure _

theorem SubscribeMessage.decode_within : SubscribeMessage.decode.Within room count b := by
  refine decodeFrame_within hb fun payload r h => ?_
  have hpayload : payload.length + 3 ≤ b.length := decodeMessage_payload h
  refine (decodeVarint_within (by omega)).bind fun requestId r1 h1 hr1 => ?_
  refine (decodeVarint_within (by omega)).bind fun delta r2 h2 hr2 => ?_
  refine (decodeTrackNamespace_within hroom (by omega)).bind fun ns r3 h3 hr3 => ?_
  refine (decodeBytes_within _ (by omega)).bind fun name r4 h4 hr4 => ?_
  have hskip : (skipToParameters MSG_SUBSCRIBE).Returns payload () r4 :=
    Decoder.returns_bind.mpr ⟨requestId, r1, h1, Decoder.returns_bind.mpr ⟨delta, r2, h2,
      Decoder.returns_bind.mpr ⟨ns, r3, h3, Decoder.returns_bind.mpr ⟨name, r4, h4, rfl, rfl⟩⟩⟩⟩
  exact (hfit.decodeParameters_within h hskip (by omega)).bind
    fun _ _ _ _ => Decoder.Within.pure _

/-- A frame whose parameters fit, whatever its type is, is parsed within the bounds. -/
theorem parseRequestMessage_within : parseRequestMessage.Within room count b := by
  have parsed : (do
      let (msgType, _) ← Decoder.onSlice b decodeVarint
      decodeRequest msgType : Decoder RequestMessage).Within room count b := by
    refine (Decoder.Within.onSlice (decodeVarint_within hb)).bind fun p r hr _ => ?_
    obtain ⟨-, rfl⟩ := Decoder.returns_onSlice.mp hr
    unfold decodeRequest
    repeat' apply Decoder.Within.ite <;> intro _
    · exact (PublishNamespaceMessage.decode_within hb hfit hroom).bind
        fun _ _ _ _ => Decoder.Within.pure _
    · exact (SubscribeMessage.decode_within hb hfit hroom).bind
        fun _ _ _ _ => Decoder.Within.pure _
    · exact (SubscribeOkMessage.decode_within hb hfit).bind fun _ _ _ _ => Decoder.Within.pure _
    · exact (RequestOkMessage.decode_within hb hfit).bind fun _ _ _ _ => Decoder.Within.pure _
    · exact (RequestErrorMessage.decode_within hb).bind fun _ _ _ _ => Decoder.Within.pure _
    · exact (PublishDoneMessage.decode_within hb).bind fun _ _ _ _ => Decoder.Within.pure _
    · exact Decoder.Within.bail _
  exact ⟨parsed.noPanic, parsed.shrinks, parsed.events⟩

end Parameters

/-! ### The vector of a parameter list -/

theorem decodeParameters_logs {b r : Bytes} {count : UInt64} (h : decodeVarint.Returns b count r) :
    decodeParameters.Logs b (.capacity count.toNat sizeOfMessageParameter) :=
  .bind_right h (.bind_left (.withCapacity _ _ _))

theorem decodeFrame_logs {α : Type} {expected : UInt64} {name : String} {fields : Decoder α}
    {b payload r : Bytes} {e : Event} (hframe : decodeMessage.Returns b (expected, payload) r)
    (h : fields.Logs payload e) : (decodeFrame expected name fields).Logs b e := by
  refine .bind_right hframe (.bind_right (a := ()) (r := r) ?_ (.bind_left (.onSlice h)))
  simp

/-- The decoder that a frame with a parameter list is given to allocates for its count. -/
theorem decodeRequest_logs {b payload r mid rest : Bytes} {msgType count : UInt64}
    (hframe : decodeMessage.Returns b (msgType, payload) r)
    (hskip : (skipToParameters msgType).Returns payload () mid)
    (hcount : decodeVarint.Returns mid count rest) :
    (decodeRequest msgType).Logs b (.capacity count.toNat sizeOfMessageParameter) := by
  have hlog := decodeParameters_logs hcount
  simp only [skipToParameters, Decoder.returns_ite, Decoder.returns_bind, Decoder.returns_pure,
    Decoder.returns_bail, beq_iff_eq, and_false, or_false] at hskip
  rcases hskip with ⟨rfl, id, r1, h1, delta, r2, h2, ns, r3, h3, -, rfl⟩ |
    ⟨-, ⟨rfl, id, r1, h1, delta, r2, h2, ns, r3, h3, name, r4, h4, -, rfl⟩ |
      ⟨-, ⟨rfl, trackAlias, r1, h1, -, rfl⟩ | ⟨-, rfl, -, rfl⟩⟩⟩
  · exact .bind_left (x := PublishNamespaceMessage.decode)
      (decodeFrame_logs hframe (.bind_right h1 (.bind_right h2 (.bind_right h3 (.bind_left hlog)))))
  · exact .bind_left (x := SubscribeMessage.decode)
      (decodeFrame_logs hframe (.bind_right h1 (.bind_right h2 (.bind_right h3
        (.bind_right h4 (.bind_left hlog))))))
  · exact .bind_left (x := SubscribeOkMessage.decode)
      (decodeFrame_logs hframe (.bind_right h1 (.bind_left hlog)))
  · exact .bind_left (x := RequestOkMessage.decode) (decodeFrame_logs hframe (.bind_left hlog))

theorem decodeMessage_type {b payload r : Bytes} {msgType : UInt64}
    (h : decodeMessage.Returns b (msgType, payload) r) :
    ∃ mid, decodeVarint.Returns b msgType mid := by
  simp only [decodeMessage, Decoder.returns_bind, Decoder.returns_pure] at h
  obtain ⟨typeId, mid, htype, _, _, -, _, _, -, _, _, -, _, _, -, _, _, -, _, _, -, heq, -⟩ := h
  exact ⟨mid, (Prod.mk.inj heq).1 ▸ htype⟩

theorem parseRequestMessage_logs {b r : Bytes} {count : UInt64}
    (h : declaredParameterCount.Returns b count r) :
    parseRequestMessage.Logs b (.capacity count.toNat sizeOfMessageParameter) := by
  simp only [declaredParameterCount, Decoder.returns_bind, Decoder.returns_onSlice,
    Decoder.returns_pure] at h
  obtain ⟨⟨msgType, payload⟩, _, hframe, ⟨n, rest⟩, _, ⟨⟨_, mid, hskip, hcount⟩, rfl⟩, rfl, -⟩ := h
  obtain ⟨left, htype⟩ := decodeMessage_type hframe
  have hread : (Decoder.onSlice b decodeVarint).Returns b (msgType, left) b :=
    Decoder.returns_onSlice.mpr ⟨htype, rfl⟩
  unfold Decoder.Logs parseRequestMessage
  exact Decoder.Logs.bind_right hread (decodeRequest_logs hframe hskip hcount)

/-! ### Safety -/

/-- The relay can be sent the bytes `b` in place of a request or of a SETUP: whatever they are,
the parser ends without a panic, each of its loops has at most as many iterations as there are
bytes, and each vector is allocated for at most `bound` of that number of elements. -/
structure Safe (bound : Nat → Nat) (b : Bytes) : Prop where
  request : parseRequestMessage.Within (bound b.length) b.length b
  setup : SetupMessage.decode.Within (bound b.length) b.length b

/-- A frame is safe exactly when the count in front of its parameter list, which is used as a
capacity before any parameter is read, is. -/
theorem safe_iff_parametersFit (bound : Nat → Nat) (b : Bytes)
    (hbound : MAX_FIELDS.toNat ≤ bound b.length) :
    Safe bound b ↔ ParametersFit (bound b.length) b := by
  constructor
  · intro h count r hcount
    exact h.request.events _ (parseRequestMessage_logs hcount)
  · intro h
    exact ⟨parseRequestMessage_within (Nat.le_refl _) h hbound,
      SetupMessage.decode_within (Nat.le_refl _)⟩

/-- A REQUEST_OK of twelve bytes whose parameter count is `u64::MAX`. -/
def overflowingRequestOk : Bytes :=
  [0x07, 0x00, 0x09, 0xff, 0xff, 0xff, 0xff, 0xff, 0xff, 0xff, 0xff, 0xff]

theorem overflowingRequestOk_panics :
    (parseRequestMessage overflowingRequestOk).outcome.isPanic = true := by
  decide

/-- No bound makes every frame safe. -/
theorem not_all_frames_safe : ¬∃ bound : Nat → Nat, ∀ b, Safe bound b := by
  rintro ⟨bound, h⟩
  have hpanic := overflowingRequestOk_panics
  rw [(h overflowingRequestOk).request.noPanic] at hpanic
  exact Bool.false_ne_true hpanic

/-- A SUBSCRIBE_OK without parameters is safe. -/
theorem safe_subscribeOk : Safe (fun n => n + 32) [0x04, 0x00, 0x03, 0x01, 0x00, 0x00] := by
  refine (safe_iff_parametersFit _ _ (by decide)).mpr fun count r h => ?_
  have hread : declaredParameterCount.Returns [0x04, 0x00, 0x03, 0x01, 0x00, 0x00] 0 [] := by
    decide
  obtain ⟨rfl, -⟩ := h.unique hread
  decide

end Moqt.Wire
