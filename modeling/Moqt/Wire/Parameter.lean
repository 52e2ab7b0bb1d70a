import Moqt.Wire.Fields
import Moqt.Wire.TrackNamespace

/-! Message parameters.  Three of the ten types are kept; the other seven are read, by their
encoding, and skipped. -/

namespace Moqt.Wire

open Library

def PARAM_DELIVERY_TIMEOUT : UInt64 := 0x02
def PARAM_AUTHORIZATION_TOKEN : UInt64 := 0x03
def PARAM_RENDEZVOUS_TIMEOUT : UInt64 := 0x04
def PARAM_EXPIRES : UInt64 := 0x08
def PARAM_LARGEST_OBJECT : UInt64 := 0x09
def PARAM_FORWARD : UInt64 := 0x10
def PARAM_SUBSCRIBER_PRIORITY : UInt64 := 0x20
def PARAM_SUBSCRIPTION_FILTER : UInt64 := 0x21
def PARAM_GROUP_ORDER : UInt64 := 0x22
def PARAM_NEW_GROUP_REQUEST : UInt64 := 0x32

inductive SubscriptionFilter where
  | nextGroupStart
  | largestObject
  | absoluteStart (group object : UInt64)
  | absoluteRange (group object endGroupDelta : UInt64)
deriving DecidableEq, Repr

inductive MessageParameter where
  | subscriptionFilter (filter : SubscriptionFilter)
  | largestObject (group object : UInt64)
  | forward (value : UInt8)
deriving DecidableEq, Repr

/-- `size_of::<MessageParameter>()` on a 64-bit target: the three words of `AbsoluteRange` and a
tag, whose spare values tell the other variants apart. -/
def sizeOfMessageParameter : Nat := 32

def paramTypeId : MessageParameter → UInt64
  | .largestObject _ _ => PARAM_LARGEST_OBJECT
  | .forward _ => PARAM_FORWARD
  | .subscriptionFilter _ => PARAM_SUBSCRIPTION_FILTER

/-! ### Encoding -/

def encodeParameterValue : MessageParameter → Outcome Bytes
  | .subscriptionFilter .nextGroupStart =>
    let filterPayload := encodeVarint 0x1
    return encodeVarint filterPayload.length.toUInt64 ++ filterPayload
  | .subscriptionFilter _ => .err "only NextGroupStart filter is supported for encoding"
  | .largestObject group object => return encodeVarint group ++ encodeVarint object
  | .forward value => return [value]

/-- The loop of `encode_parameters`. -/
def encodeParametersFrom : (prevType : UInt64) → List MessageParameter → Outcome Bytes
  | _, [] => return []
  | prevType, param :: params => do
    let typeId := paramTypeId param
    Outcome.ensure (prevType ≤ typeId || prevType == 0)
      s!"parameter type_id 0x{upperHex typeId} is not in ascending order (prev: 0x{upperHex prevType})"
    -- no underflow: the previous type is smaller, or it is 0
    let delta := typeId - prevType
    let value ← encodeParameterValue param
    let rest ← encodeParametersFrom typeId params
    return encodeVarint delta ++ value ++ rest

def encodeParameters (params : List MessageParameter) : Outcome Bytes := do
  let parameters ← encodeParametersFrom 0 params
  return encodeVarint params.length.toUInt64 ++ parameters

/-! ### Decoding -/

/-- The fields after the filter type, read from what is left of the filter's own bytes. -/
def decodeFilterFields (filterType : UInt64) (filterPayload : Bytes) :
    Decoder SubscriptionFilter := do
  if filterType == 0x1 then
    return .nextGroupStart
  else if filterType == 0x2 then
    return .largestObject
  else if filterType == 0x3 then
    let (group, filterPayload) ← Decoder.onSlice filterPayload decodeVarint
    let (object, _) ← Decoder.onSlice filterPayload decodeVarint
    return .absoluteStart group object
  else if filterType == 0x4 then
    let (group, filterPayload) ← Decoder.onSlice filterPayload decodeVarint
    let (object, filterPayload) ← Decoder.onSlice filterPayload decodeVarint
    let (endGroupDelta, _) ← Decoder.onSlice filterPayload decodeVarint
    return .absoluteRange group object endGroupDelta
  else
    Decoder.bail s!"unknown filter type: 0x{upperHex filterType}"

def decodeSubscriptionFilter : Decoder SubscriptionFilter := do
  let len := (← decodeVarint).toNat
  Decoder.ensureLen len fun _ => "subscription filter truncated"
  let filterPayload ← Decoder.slice len
  let (filterType, filterPayload) ← Decoder.onSlice filterPayload decodeVarint
  Decoder.advance len
  decodeFilterFields filterType filterPayload

def decodeUInt8 (truncated : String) : Decoder UInt8 := do
  Decoder.ensureLen 1 fun _ => truncated
  let v ← Decoder.first
  Decoder.advance 1
  return v

def skipLengthPrefixed (truncated : String) : Decoder Unit := do
  let len := (← decodeVarint).toNat
  Decoder.ensureLen len fun _ => truncated
  Decoder.advance len

/-- The `match` on the type of a parameter: its value, or nothing for a type that is skipped. -/
def decodeParameterValue (typeId : UInt64) : Decoder (Option MessageParameter) := do
  if typeId == PARAM_SUBSCRIPTION_FILTER then
    return some (.subscriptionFilter (← decodeSubscriptionFilter))
  else if typeId == PARAM_LARGEST_OBJECT then
    let group ← decodeVarint
    let object ← decodeVarint
    return some (.largestObject group object)
  else if typeId == PARAM_FORWARD then
    return some (.forward (← decodeUInt8 "forward parameter truncated"))
  else if typeId == PARAM_DELIVERY_TIMEOUT then
    let _ ← decodeVarint
    return none
  else if typeId == PARAM_AUTHORIZATION_TOKEN then
    skipLengthPrefixed "authorization token truncated"
    return none
  else if typeId == PARAM_RENDEZVOUS_TIMEOUT then
    let _ ← decodeVarint
    return none
  else if typeId == PARAM_EXPIRES then
    let _ ← decodeVarint
    return none
  else if typeId == PARAM_SUBSCRIBER_PRIORITY then
    let _ ← decodeUInt8 "subscriber priority truncated"
    return none
  else if typeId == PARAM_GROUP_ORDER then
    let _ ← decodeUInt8 "group order truncated"
    return none
  else if typeId == PARAM_NEW_GROUP_REQUEST then
    let _ ← decodeVarint
    return none
  else
    Decoder.bail s!"unknown parameter type: 0x{upperHex typeId}"

/-- The type and the value that an iteration of `decode_parameters` reads. -/
def decodeParameter (prevType : UInt64) : Decoder (UInt64 × Option MessageParameter) := do
  let delta ← decodeVarint
  let typeId ← checkedAdd prevType delta "parameter type overflow"
  let param ← decodeParameterValue typeId
  return (typeId, param)

/-- The variables of the loop of `decode_parameters`. -/
structure ParameterLoop where
  params : List MessageParameter
  prevType : UInt64

/-- What an iteration does with what it has read.  A skipped parameter ends in `continue`, which
passes over both assignments. -/
def ParameterLoop.push (s : ParameterLoop) : UInt64 × Option MessageParameter → ParameterLoop
  | (typeId, some param) => { params := s.params ++ [param], prevType := typeId }
  | (_, none) => s

def ParameterLoop.body (s : ParameterLoop) : Decoder ParameterLoop := do
  let read ← decodeParameter s.prevType
  return s.push read

def decodeParameters : Decoder (List MessageParameter) := do
  let count ← decodeVarint
  Decoder.withCapacity count.toNat sizeOfMessageParameter
  let s ← Decoder.forCount count.toNat { params := [], prevType := 0 } ParameterLoop.body
  return s.params

/-! ### What the decoders do with the bytes -/

theorem decodeFilterFields_within {room count : Nat} (filterType : UInt64) {payload : Bytes}
    (hp : payload.length ≤ count) (b : Bytes) :
    (decodeFilterFields filterType payload).Within room count b := by
  have onPayload : ∀ {p c : Bytes}, p.length ≤ count →
      (Decoder.onSlice p decodeVarint).Within room count c :=
    fun h => Decoder.Within.onSlice (decodeVarint_within h)
  have left : ∀ {p c r : Bytes} {q : UInt64 × Bytes}, p.length ≤ count →
      (Decoder.onSlice p decodeVarint).Returns c q r → q.2.length ≤ count := fun h hr =>
    Nat.le_trans (Nat.le_of_lt (decodeVarint_takes (Decoder.returns_onSlice.mp hr).1)) h
  unfold decodeFilterFields
  repeat' apply Decoder.Within.ite <;> intro _
  · exact Decoder.Within.pure _
  · exact Decoder.Within.pure _
  · refine (onPayload hp).bind fun q _ hq _ => ?_
    exact (onPayload (left hp hq)).bind fun _ _ _ _ => Decoder.Within.pure _
  · refine (onPayload hp).bind fun q _ hq _ => ?_
    refine (onPayload (left hp hq)).bind fun q' _ hq' _ => ?_
    exact (onPayload (left (left hp hq) hq')).bind fun _ _ _ _ => Decoder.Within.pure _
  · exact Decoder.Within.bail _

theorem decodeSubscriptionFilter_within {room count : Nat} {b : Bytes} (hb : b.length ≤ count) :
    decodeSubscriptionFilter.Within room count b := by
  refine (decodeVarint_within hb).bind fun len r _ hle => ?_
  refine (Decoder.Within.ensureLen _ _).bind fun _ r hr _ => ?_
  obtain ⟨hlen, rfl⟩ := Decoder.returns_ensureLen.mp hr
  refine (Decoder.Within.slice hlen).bind fun payload r hr _ => ?_
  obtain ⟨-, rfl, rfl⟩ := Decoder.returns_slice.mp hr
  have hpayload : (List.take len.toNat r).length ≤ count := by
    simp only [List.length_take]
    omega
  refine (Decoder.Within.onSlice (decodeVarint_within hpayload)).bind fun p r hr _ => ?_
  obtain ⟨hp, rfl⟩ := Decoder.returns_onSlice.mp hr
  refine (Decoder.Within.advance hlen).bind fun _ _ _ _ => ?_
  exact decodeFilterFields_within _ (by have := decodeVarint_takes hp; omega) _

theorem decodeUInt8_within {room count : Nat} (m : String) (b : Bytes) :
    (decodeUInt8 m).Within room count b := by
  refine (Decoder.Within.ensureLen _ _).bind fun _ r hr _ => ?_
  obtain ⟨hlen, rfl⟩ := Decoder.returns_ensureLen.mp hr
  refine (Decoder.Within.first (by rintro rfl; simp at hlen)).bind fun v r hr _ => ?_
  obtain ⟨-, rfl⟩ := Decoder.returns_first.mp hr
  exact (Decoder.Within.advance hlen).bind fun _ _ _ _ => Decoder.Within.pure _

theorem returns_skipLengthPrefixed {m : String} {b r : Bytes} {u : Unit} :
    (skipLengthPrefixed m).Returns b u r ↔ ∃ payload c, LengthPrefixed payload c ∧ b = c ++ r := by
  simp only [skipLengthPrefixed, Decoder.returns_bind, Decoder.returns_ensureLen,
    Decoder.returns_advance, returns_decodeVarint_iff]
  constructor
  · rintro ⟨len, _, ⟨c, hc, rfl⟩, -, _, ⟨hlen, rfl⟩, -, rfl⟩
    refine ⟨_, _, ⟨len, c, hc, (List.length_take_of_le hlen).symm, rfl⟩, ?_⟩
    rw [List.append_assoc, List.take_append_drop]
  · rintro ⟨payload, _, ⟨len, c, hc, hlen, rfl⟩, rfl⟩
    exact ⟨len, _, ⟨c, hc, List.append_assoc _ _ _⟩, (), _, ⟨by simp [hlen], rfl⟩, by simp [hlen],
      by simp [hlen]⟩

theorem skipLengthPrefixed_within {room count : Nat} (m : String) {b : Bytes}
    (hb : b.length ≤ count) : (skipLengthPrefixed m).Within room count b := by
  refine (decodeVarint_within hb).bind fun len r _ _ => ?_
  refine (Decoder.Within.ensureLen _ _).bind fun _ r hr _ => ?_
  obtain ⟨hlen, rfl⟩ := Decoder.returns_ensureLen.mp hr
  exact Decoder.Within.advance hlen

theorem decodeParameterValue_within {room count : Nat} (typeId : UInt64) {b : Bytes}
    (hb : b.length ≤ count) : (decodeParameterValue typeId).Within room count b := by
  have varint : decodeVarint.Within room count b := decodeVarint_within hb
  unfold decodeParameterValue
  repeat' apply Decoder.Within.ite <;> intro _
  all_goals first
    | exact (decodeSubscriptionFilter_within hb).bind fun _ _ _ _ => Decoder.Within.pure _
    | exact varint.bind fun _ _ _ h => (decodeVarint_within (Nat.le_trans h hb)).bind
        fun _ _ _ _ => Decoder.Within.pure _
    | exact varint.bind fun _ _ _ _ => Decoder.Within.pure _
    | exact (decodeUInt8_within _ _).bind fun _ _ _ _ => Decoder.Within.pure _
    | exact (skipLengthPrefixed_within _ hb).bind fun _ _ _ _ => Decoder.Within.pure _
    | exact Decoder.Within.bail _

theorem ParameterLoop.body_within {room count : Nat} (s : ParameterLoop) {b : Bytes}
    (hb : b.length ≤ count) : s.body.Within room count b := by
  refine Decoder.Within.bind ?_ fun _ _ _ _ => Decoder.Within.pure _
  refine (decodeVarint_within hb).bind fun delta r _ hr => ?_
  refine (checkedAdd_within _ _ _ _).bind fun typeId r' _ hr' => ?_
  exact (decodeParameterValue_within _ (by omega)).bind fun _ _ _ _ => Decoder.Within.pure _

/-- Every iteration takes at least the byte of its type. -/
theorem ParameterLoop.body_takes {s s' : ParameterLoop} {b r : Bytes} (h : s.body.Returns b s' r) :
    r.length < b.length := by
  simp only [ParameterLoop.body, decodeParameter, Decoder.returns_bind, returns_checkedAdd,
    Decoder.returns_pure] at h
  obtain ⟨_, _, ⟨delta, mid, hdelta, typeId, _, ⟨-, -, rfl⟩, value, last, hvalue, -, rfl⟩, -,
    rfl⟩ := h
  have h1 := decodeVarint_takes hdelta
  have hwithin : (decodeParameterValue typeId).Within 0 mid.length mid :=
    decodeParameterValue_within typeId (Nat.le_refl _)
  have h2 := hwithin.returns_le hvalue
  omega

/-- A parameter list is read without a panic when its count can be allocated. -/
theorem decodeParameters_within {room count : Nat} {b : Bytes} (hb : b.length ≤ count)
    (hcount : ∀ n r, decodeVarint.Returns b n r →
      n.toNat ≤ room ∧ n.toNat * sizeOfMessageParameter ≤ isizeMax) :
    decodeParameters.Within room count b := by
  refine (decodeVarint_within hb).bind fun n r hn _ => ?_
  have htakes := decodeVarint_takes hn
  obtain ⟨hroom, hsize⟩ := hcount n r hn
  refine (Decoder.Within.withCapacity hroom hsize).bind fun _ r hr _ => ?_
  obtain ⟨-, rfl⟩ := Decoder.returns_withCapacity.mp hr
  refine (Decoder.Within.forCount (fun s c hc => ?_)
    (fun _ _ _ _ => ParameterLoop.body_takes) _ _ (by omega)).bind
    fun _ _ _ _ => Decoder.Within.pure _
  exact ParameterLoop.body_within s (by omega)

end Moqt.Wire
