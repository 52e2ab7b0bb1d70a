import Moqt.Wire.RoundTrip

/-! What the decoders accept, and what becomes of it when it is encoded again: an accepted list of
parameters is in order, and its shortest encoding is no longer than the bytes that it was read
from. -/

namespace Moqt.Wire

open Library Decoder

/-! ### Byte strings -/

theorem varintSize_add_le {b r : Bytes} {v : UInt64} (h : decodeVarint.Returns b v r) :
    varintSize v + r.length ≤ b.length := by
  obtain ⟨c, hc, rfl⟩ := returns_decodeVarint_iff.mp h
  have := length_encodeVarint_le hc
  rw [length_encodeVarint] at this
  rw [List.length_append]
  omega

theorem ite_le_ite {a b limit : UInt64} {n m k : Nat} (h : a ≤ b) (hnm : n ≤ m) (hk : k ≤ m) :
    (if a ≤ limit then k else n) ≤ if b ≤ limit then k else m := by
  split
  · split
    · exact Nat.le_refl k
    · exact hk
  next ha => rwa [if_neg fun hb => ha (UInt64.le_trans h hb)]

theorem varintSize_mono {a b : UInt64} (h : a ≤ b) : varintSize a ≤ varintSize b := by
  unfold varintSize
  repeat apply ite_le_ite h
  all_goals
    repeat' split
    all_goals decide

theorem toUInt64_length {α : Type} {n : UInt64} {l : List α} (h : l.length = n.toNat) :
    l.length.toUInt64 = n := by
  rw [h]
  exact UInt64.ofNat_toNat

theorem eq_sub {a b c : UInt64} (hfits : a.toNat + b.toNat < 2 ^ 64) (h : a + b = c) :
    b = c - a ∧ a ≤ c := by
  subst h
  refine ⟨?_, ?_⟩
  · apply UInt64.toNat.inj
    have hle : a ≤ a + b := by
      rw [UInt64.le_iff_toNat_le, UInt64.toNat_add, Nat.mod_eq_of_lt hfits]
      omega
    rw [UInt64.toNat_sub_of_le _ _ hle, UInt64.toNat_add, Nat.mod_eq_of_lt hfits]
    omega
  · rw [UInt64.le_iff_toNat_le, UInt64.toNat_add, Nat.mod_eq_of_lt hfits]
    omega

/-! ### Track namespaces -/

theorem blockSize_add_le {b mid : Bytes} {len : UInt64} (hlen : decodeVarint.Returns b len mid)
    (hle : len.toNat ≤ mid.length) :
    blockSize (mid.take len.toNat) + (mid.drop len.toNat).length ≤ b.length := by
  have hsize := varintSize_add_le hlen
  have hlength := List.length_take_of_le hle
  rw [blockSize, toUInt64_length hlength, hlength, List.length_drop]
  omega

theorem decodeNamespaceField_returns {fields fields' : List Bytes} {b r : Bytes}
    (h : (decodeNamespaceField fields).Returns b fields' r) :
    ∃ field, field ≠ [] ∧ fields' = fields ++ [field] ∧
      blockSize field + r.length ≤ b.length := by
  simp only [decodeNamespaceField, returns_bind, returns_ensure, returns_ensureLen, returns_slice,
    returns_advance, returns_pure] at h
  obtain ⟨len, mid, hlen, -, _, ⟨hpos, rfl⟩, -, _, ⟨hle, rfl⟩, field, _, ⟨-, rfl, rfl⟩, -, _,
    ⟨-, rfl⟩, rfl, rfl⟩ := h
  refine ⟨_, ?_, rfl, blockSize_add_le hlen hle⟩
  have hpos : 0 < len.toNat := UInt64.lt_iff_toNat_lt.mp (of_decide_eq_true hpos)
  intro hnil
  have := congrArg List.length hnil
  rw [List.length_take_of_le hle, List.length_nil] at this
  omega

theorem namespaceFields_of_returns {count done : Nat} {fields fields' : List Bytes} {b r : Bytes}
    (h : (forCountFrom decodeNamespaceField done count fields).Returns b fields' r) :
    ∃ read, fields' = fields ++ read ∧ read.length = count ∧ (∀ field ∈ read, field ≠ []) ∧
      (read.map blockSize).sum + r.length ≤ b.length := by
  induction count generalizing done fields b with
  | zero =>
    obtain ⟨rfl, rfl⟩ := returns_forCountFrom_zero.mp h
    exact ⟨[], by simp⟩
  | succ count ih =>
    obtain ⟨mid, m, hbody, hrest⟩ := returns_forCountFrom_succ.mp h
    obtain ⟨field, hfield, rfl, hsize⟩ := decodeNamespaceField_returns hbody
    obtain ⟨read, rfl, hcount, hread, hle⟩ := ih hrest
    refine ⟨field :: read, by simp, by simp [hcount], ?_, ?_⟩
    · intro other hmem
      rcases List.mem_cons.mp hmem with rfl | hmem
      · exact hfield
      · exact hread other hmem
    · rw [List.map_cons, List.sum_cons]
      omega

/-- An accepted namespace is valid, and no longer when it is encoded again. -/
theorem namespace_of_returns {ns : TrackNamespace} {b r : Bytes}
    (h : decodeTrackNamespace.Returns b ns r) :
    ns.Valid ∧ namespaceSize ns + r.length ≤ b.length := by
  simp only [decodeTrackNamespace, returns_bind, returns_ensure, returns_withCapacity,
    returns_pure] at h
  obtain ⟨count, mid, hn, -, _, ⟨hmax, rfl⟩, -, _, ⟨-, rfl⟩, fields, _, hloop, rfl, rfl⟩ := h
  obtain ⟨read, hread, hcount, hnonempty, hsize⟩ := namespaceFields_of_returns hloop
  rw [List.nil_append] at hread
  subst hread
  have h1 := varintSize_add_le hn
  refine ⟨⟨hcount.trans_le (UInt64.le_iff_toNat_le.mp (of_decide_eq_true hmax)), hnonempty⟩, ?_⟩
  simp only [namespaceSize, toUInt64_length hcount]
  omega

/-! ### Parameters -/

theorem returns_decodeUInt8_length {m : String} {b r : Bytes} {v : UInt8}
    (h : (decodeUInt8 m).Returns b v r) : 1 + r.length ≤ b.length := by
  simp only [decodeUInt8, returns_bind, returns_ensureLen, returns_first, returns_advance,
    returns_pure] at h
  obtain ⟨-, _, ⟨hone, rfl⟩, _, _, ⟨-, rfl⟩, -, _, ⟨-, rfl⟩, -, rfl⟩ := h
  rw [List.length_drop]
  omega

theorem decodeFilterFields_keeps {filterType : UInt64} {payload b r : Bytes}
    {filter : SubscriptionFilter} (h : (decodeFilterFields filterType payload).Returns b filter r) :
    r = b := by
  simp only [decodeFilterFields, returns_ite, returns_bind, returns_onSlice, returns_pure,
    returns_bail] at h
  rcases h with ⟨-, -, rfl⟩ | ⟨-, ⟨-, -, rfl⟩ | ⟨-, ⟨-, _, _, ⟨-, rfl⟩, _, _, ⟨-, rfl⟩, -, rfl⟩ |
    ⟨-, ⟨-, _, _, ⟨-, rfl⟩, _, _, ⟨-, rfl⟩, _, _, ⟨-, rfl⟩, -, rfl⟩ | ⟨-, h⟩⟩⟩⟩
  all_goals first | rfl | exact h.elim

/-- A filter has at least the byte of its length and the byte of its type. -/
theorem returns_decodeSubscriptionFilter_length {filter : SubscriptionFilter} {b r : Bytes}
    (h : decodeSubscriptionFilter.Returns b filter r) : 2 + r.length ≤ b.length := by
  simp only [decodeSubscriptionFilter, returns_bind, returns_ensureLen, returns_slice,
    returns_onSlice, returns_advance] at h
  obtain ⟨len, mid, hlen, -, _, ⟨hle, rfl⟩, payload, _, ⟨-, rfl, rfl⟩, p, _, ⟨htype, rfl⟩, -, _,
    ⟨-, rfl⟩, hfields⟩ := h
  obtain rfl := decodeFilterFields_keeps hfields
  have hone := decodeVarint_takes hlen
  have htwo := decodeVarint_takes htype
  rw [List.length_take_of_le hle] at htwo
  rw [List.length_drop]
  omega

/-- The value of a parameter that is kept: its type is the one that was read, and the value was no
shorter than it has to be. -/
theorem decodeParameterValue_some {typeId : UInt64} {p : MessageParameter} {b r : Bytes}
    (h : (decodeParameterValue typeId).Returns b (some p) r) :
    paramTypeId p = typeId ∧ parameterValueSize p + r.length ≤ b.length := by
  simp only [decodeParameterValue, returns_ite, returns_bind, returns_pure, returns_bail,
    Option.some.injEq, reduceCtorEq, false_and, and_false, exists_false, or_false,
    beq_iff_eq] at h
  rcases h with ⟨rfl, filter, mid, hfilter, rfl, rfl⟩ |
    ⟨-, ⟨rfl, group, mid, hgroup, object, _, hobject, rfl, rfl⟩ | ⟨-, rfl, value, _, hvalue, rfl,
      rfl⟩⟩
  · exact ⟨rfl, returns_decodeSubscriptionFilter_length hfilter⟩
  · have h1 := varintSize_add_le hgroup
    have h2 := varintSize_add_le hobject
    refine ⟨rfl, ?_⟩
    simp only [parameterValueSize]
    omega
  · exact ⟨rfl, returns_decodeUInt8_length hvalue⟩

/-- What a loop has read, after a parameter of type `prev`: it is in order, and its shortest
encoding is no longer than the bytes that were taken. -/
structure ReadParameters (prev : UInt64) (params : List MessageParameter) (taken : Nat) :
    Prop where
  above : ∀ p ∈ params, prev ≤ paramTypeId p
  sorted : (params.map paramTypeId).Pairwise (· ≤ ·)
  size : parametersSizeFrom prev params ≤ taken

theorem ReadParameters.cons {prev : UInt64} {p : MessageParameter} {ps : List MessageParameter}
    {first rest : Nat} (hprev : prev ≤ paramTypeId p)
    (hsize : varintSize (paramTypeId p - prev) + parameterValueSize p ≤ first)
    (h : ReadParameters (paramTypeId p) ps rest) :
    ReadParameters prev (p :: ps) (first + rest) := by
  obtain ⟨habove, hsorted, hrest⟩ := h
  refine ⟨?_, ?_, ?_⟩
  · intro q hq
    rcases List.mem_cons.mp hq with rfl | hq
    · exact hprev
    · exact UInt64.le_trans hprev (habove q hq)
  · rw [List.map_cons, List.pairwise_cons]
    exact ⟨List.forall_mem_map.mpr habove, hsorted⟩
  · simp only [parametersSizeFrom]
    omega

theorem ReadParameters.mono {prev : UInt64} {ps : List MessageParameter} {m n : Nat}
    (h : ReadParameters prev ps m) (hle : m ≤ n) : ReadParameters prev ps n :=
  ⟨h.above, h.sorted, h.size.trans hle⟩

/-- One iteration: a parameter is kept, or skipped with the last type as it was. -/
theorem ParameterLoop.body_returns {s s' : ParameterLoop} {b r : Bytes}
    (h : s.body.Returns b s' r) :
    (s' = s ∨ ∃ p, s' = ⟨s.params ++ [p], paramTypeId p⟩ ∧ s.prevType ≤ paramTypeId p ∧
      varintSize (paramTypeId p - s.prevType) + parameterValueSize p + r.length ≤ b.length) ∧
    r.length ≤ b.length := by
  have htakes := ParameterLoop.body_takes h
  refine ⟨?_, Nat.le_of_lt htakes⟩
  simp only [ParameterLoop.body, decodeParameter, returns_bind, returns_checkedAdd,
    returns_pure] at h
  obtain ⟨_, _, ⟨delta, mid, hdelta, typeId, _, ⟨hfits, hsum, rfl⟩, value, last, hvalue, rfl, rfl⟩,
    rfl, rfl⟩ := h
  cases value with
  | none => exact .inl rfl
  | some p =>
    obtain ⟨rfl, hsize⟩ := decodeParameterValue_some hvalue
    obtain ⟨hdiff, hprev⟩ := eq_sub hfits hsum
    have htype := varintSize_add_le hdelta
    rw [hdiff] at htype
    exact .inr ⟨p, rfl, hprev, by omega⟩

theorem ParameterLoop.read_of_returns {count done : Nat} {s s' : ParameterLoop} {b r : Bytes}
    (h : (forCountFrom ParameterLoop.body done count s).Returns b s' r) :
    ∃ read, s'.params = s.params ++ read ∧ read.length ≤ count ∧ r.length ≤ b.length ∧
      ReadParameters s.prevType read (b.length - r.length) := by
  induction count generalizing done s b with
  | zero =>
    obtain ⟨rfl, rfl⟩ := returns_forCountFrom_zero.mp h
    exact ⟨[], by simp, Nat.le_refl _, Nat.le_refl _, by simp, .nil, Nat.zero_le _⟩
  | succ count ih =>
    obtain ⟨mid, m, hbody, hrest⟩ := returns_forCountFrom_succ.mp h
    obtain ⟨hstep, hle⟩ := ParameterLoop.body_returns hbody
    obtain ⟨read, hread, hcount, hle', hparams⟩ := ih hrest
    rcases hstep with rfl | ⟨p, rfl, hprev, hsize⟩
    · exact ⟨read, hread, by omega, by omega, hparams.mono (by omega)⟩
    · refine ⟨p :: read, ?_, by simpa using hcount, by omega, ?_⟩
      · rw [hread, List.append_assoc, List.singleton_append]
      · have hfirst : varintSize (paramTypeId p - s.prevType) + parameterValueSize p ≤
            b.length - m.length := by omega
        exact (ReadParameters.cons hprev hfirst hparams).mono (by omega)

/-- An accepted list of parameters is in order, and no longer when it is encoded again. -/
theorem parameters_of_returns {params : List MessageParameter} {b r : Bytes}
    (h : decodeParameters.Returns b params r) :
    (params.map paramTypeId).Pairwise (· ≤ ·) ∧ parametersSize params + r.length ≤ b.length := by
  simp only [decodeParameters, returns_bind, returns_withCapacity, returns_pure] at h
  obtain ⟨count, mid, hcount, -, _, ⟨-, rfl⟩, s, _, hloop, rfl, rfl⟩ := h
  obtain ⟨read, hread, hle, hlength, hparams⟩ := ParameterLoop.read_of_returns hloop
  rw [List.nil_append] at hread
  rw [hread]
  refine ⟨hparams.sorted, ?_⟩
  have hsize := hparams.size
  have hfits : read.length.toUInt64 ≤ count := by
    rw [UInt64.le_iff_toNat_le, toNat_length (Nat.lt_of_le_of_lt hle count.toNat_lt)]
    exact hle
  have hmono := varintSize_mono hfits
  have hn := varintSize_add_le hcount
  simp only at hsize
  simp only [parametersSize]
  omega

/-! ### Messages -/

theorem decodeMessage_length {b r payload : Bytes} {msgType : UInt64}
    (h : decodeMessage.Returns b (msgType, payload) r) :
    payload.length + 3 + r.length ≤ b.length ∧ payload.length ≤ maxPayload := by
  simp only [decodeMessage, returns_bind, returns_ensureLen, returns_slice, returns_advance,
    returns_pure] at h
  obtain ⟨_, mid, htype, -, _, ⟨htwo, rfl⟩, lenBytes, _, ⟨-, hlen, rfl⟩, -, _, ⟨-, rfl⟩, -, _,
    ⟨hle, rfl⟩, _, _, ⟨-, rfl, rfl⟩, -, _, ⟨-, rfl⟩, heq, rfl⟩ := h
  obtain ⟨-, rfl⟩ := Prod.mk.inj heq
  have htakes := decodeVarint_takes htype
  have hfits : bigEndian lenBytes < 256 ^ 2 := by
    have hlt := bigEndian_lt lenBytes
    rwa [← hlen, List.length_take_of_le htwo, hlen] at hlt
  have hpayload := List.length_take_of_le hle
  simp only [List.length_drop] at hle ⊢
  rw [hpayload]
  unfold maxPayload
  unfold bigEndian at hfits
  omega

/-- A decoded message comes from a payload that its fields' decoder accepts. -/
theorem payload_of_decodeFrame {α : Type} {msgType : UInt64} {name : String} {fields : Decoder α}
    {b r : Bytes} {a : α} (h : (decodeFrame msgType name fields).Returns b a r) :
    ∃ payload left, decodeMessage.Returns b (msgType, payload) r ∧
      fields.Returns payload a left := by
  obtain ⟨⟨t, payload⟩, mid, hmessage, hchecked⟩ := returns_bind.mp h
  obtain ⟨_, _, hensure, hread⟩ := returns_bind.mp hchecked
  obtain ⟨htype, rfl⟩ := returns_ensure.mp hensure
  obtain ⟨⟨a', left⟩, _, hslice, hpure⟩ := returns_bind.mp hread
  obtain ⟨hfields, rfl⟩ := returns_onSlice.mp hslice
  obtain ⟨rfl, rfl⟩ := returns_pure.mp hpure
  rw [beq_iff_eq.mp htype] at hmessage
  exact ⟨payload, left, hmessage, hfields⟩

theorem decodeBytes_length {m : String} {b r bytes : Bytes}
    (h : (decodeBytes m).Returns b bytes r) : blockSize bytes + r.length ≤ b.length := by
  simp only [decodeBytes, returns_bind, returns_ensureLen, returns_slice, returns_advance,
    returns_pure] at h
  obtain ⟨len, mid, hlen, -, _, ⟨hle, rfl⟩, _, _, ⟨-, rfl, rfl⟩, -, _, ⟨-, rfl⟩, rfl, rfl⟩ := h
  exact blockSize_add_le hlen hle

/-- An accepted SUBSCRIBE has a valid namespace and parameters in order, and would fit a frame
again. -/
theorem SubscribeMessage.of_returns {m : SubscribeMessage} {b rest : Bytes}
    (h : SubscribeMessage.decode.Returns b m rest) :
    m.trackNamespace.Valid ∧ (m.parameters.map paramTypeId).Pairwise (· ≤ ·) ∧
      m.payloadSize ≤ maxPayload := by
  obtain ⟨payload, left, hmessage, hfields⟩ := payload_of_decodeFrame h
  obtain ⟨-, hmax⟩ := decodeMessage_length hmessage
  simp only [returns_bind, returns_pure] at hfields
  obtain ⟨requestId, r1, hid, delta, r2, hdelta, ns, r3, hns, name, r4, hname, params, r5, hparams,
    rfl, -⟩ := hfields
  have h1 := varintSize_add_le hid
  have h2 := varintSize_add_le hdelta
  obtain ⟨hvalid, h3⟩ := namespace_of_returns hns
  have h4 := decodeBytes_length hname
  obtain ⟨hsorted, h5⟩ := parameters_of_returns hparams
  refine ⟨hvalid, hsorted, ?_⟩
  simp only [payloadSize]
  omega

/-! ### Bytes behind a field -/

theorem decodeTrackNamespace_local : decodeTrackNamespace.Local :=
  decodeVarint_local.bind fun _ => (Local.ensure _ _).bind fun _ =>
    (Local.withCapacity _ _).bind fun _ =>
      (Local.forCount (fun _ => decodeVarint_local.bind fun _ => (Local.ensure _ _).bind fun _ =>
        (Local.ensureLen _ _).bind fun _ => (Local.slice _).bind fun _ =>
          (Local.advance _).bind fun _ => Local.pure _) _ _).bind fun _ => Local.pure _

theorem decodeBytes_local (m : String) : (decodeBytes m).Local :=
  decodeVarint_local.bind fun _ => (Local.ensureLen _ _).bind fun _ =>
    (Local.slice _).bind fun _ => (Local.advance _).bind fun _ => Local.pure _

theorem checkedAdd_local (a b : UInt64) (m : String) : (checkedAdd a b m).Local :=
  Local.ite (Local.pure _) (Local.bail _)

theorem decodeFilterFields_local (filterType : UInt64) (payload : Bytes) :
    (decodeFilterFields filterType payload).Local := by
  unfold decodeFilterFields
  repeat' apply Local.ite
  · exact Local.pure _
  · exact Local.pure _
  · exact (Local.onSlice _ _).bind fun _ => (Local.onSlice _ _).bind fun _ => Local.pure _
  · exact (Local.onSlice _ _).bind fun _ => (Local.onSlice _ _).bind fun _ =>
      (Local.onSlice _ _).bind fun _ => Local.pure _
  · exact Local.bail _

theorem decodeUInt8_local (m : String) : (decodeUInt8 m).Local :=
  (Local.ensureLen _ _).bind fun _ => Local.first.bind fun _ =>
    (Local.advance _).bind fun _ => Local.pure _

theorem decodeParameterValue_local (typeId : UInt64) : (decodeParameterValue typeId).Local := by
  unfold decodeParameterValue
  repeat' apply Local.ite
  · refine Local.bind ?_ fun _ => Local.pure _
    exact decodeVarint_local.bind fun _ => (Local.ensureLen _ _).bind fun _ =>
      (Local.slice _).bind fun _ => (Local.onSlice _ _).bind fun _ =>
        (Local.advance _).bind fun _ => decodeFilterFields_local _ _
  all_goals first
    | exact decodeVarint_local.bind fun _ => decodeVarint_local.bind fun _ => Local.pure _
    | exact decodeVarint_local.bind fun _ => Local.pure _
    | exact (decodeUInt8_local _).bind fun _ => Local.pure _
    | exact Local.bail _
    | exact Local.bind (decodeVarint_local.bind fun _ => (Local.ensureLen _ _).bind fun _ =>
        Local.advance _) fun _ => Local.pure _

theorem decodeParameters_local : decodeParameters.Local :=
  decodeVarint_local.bind fun _ => (Local.withCapacity _ _).bind fun _ =>
    (Local.forCount (fun _ => Local.bind (decodeVarint_local.bind fun _ =>
      (checkedAdd_local _ _ _).bind fun _ => (decodeParameterValue_local _).bind fun _ =>
        Local.pure _) fun _ => Local.pure _) _ _).bind fun _ => Local.pure _

/-- The fields of a SUBSCRIBE are read from the front of the payload that was written, and nothing
but the front decides what is read. -/
theorem SubscribeMessage.returns_payload {m : SubscribeMessage} {payload rest : Bytes}
    (h : SubscribeMessage.decode.Returns (encodeMessage MSG_SUBSCRIBE payload) m rest) :
    payload.length ≤ maxPayload + rest.length ∧ ∃ r1 r2 r3 r4 left,
      decodeVarint.Returns payload m.requestId r1 ∧
      decodeVarint.Returns r1 m.requiredRequestIdDelta r2 ∧
      decodeTrackNamespace.Returns r2 m.trackNamespace r3 ∧
      (decodeBytes "track name truncated").Returns r3 m.trackName r4 ∧
      decodeParameters.Returns r4 m.parameters (left ++ rest) := by
  obtain ⟨read, left, hmessage, hfields⟩ := payload_of_decodeFrame h
  obtain ⟨-, hmax⟩ := decodeMessage_length hmessage
  obtain rfl : payload = read ++ rest := by
    rw [encodeMessage_eq, List.append_assoc] at hmessage
    simp only [decodeMessage, returns_bind, returns_ensureLen, returns_slice, returns_advance,
      returns_pure] at hmessage
    obtain ⟨_, _, htype, -, _, ⟨-, rfl⟩, _, _, ⟨-, rfl, rfl⟩, -, _, ⟨-, rfl⟩, -, _, ⟨-, rfl⟩, _, _,
      ⟨-, rfl, rfl⟩, -, _, ⟨-, rfl⟩, heq, rfl⟩ := hmessage
    obtain ⟨-, rfl⟩ := (takes_decodeVarint MSG_SUBSCRIBE _).unique htype
    obtain ⟨-, rfl⟩ := Prod.mk.inj heq
    exact (List.take_append_drop _ _).symm
  refine ⟨by rw [List.length_append]; omega, ?_⟩
  simp only [returns_bind, returns_pure] at hfields
  obtain ⟨_, r1, hid, _, r2, hdelta, _, r3, hns, _, r4, hname, _, r5, hparams, rfl, rfl⟩ := hfields
  exact ⟨r1 ++ rest, r2 ++ rest, r3 ++ rest, r4 ++ rest, r5,
    decodeVarint_local _ _ _ _ hid, decodeVarint_local _ _ _ _ hdelta,
    decodeTrackNamespace_local _ _ _ _ hns, decodeBytes_local _ _ _ _ _ hname,
    decodeParameters_local _ _ _ _ hparams⟩

/-- A SUBSCRIBE_OK that was read from `b`, with `rest` behind it, can be passed on: its frame is no
longer than the one it was read from, and says the same. -/
def SubscribeOkMessage.PassedOn (m : SubscribeOkMessage) (b rest : Bytes) : Prop :=
  ∃ frame, m.encode = .ok frame ∧ frame.length + rest.length ≤ b.length ∧
    SubscribeOkMessage.decode.Returns frame m []

theorem SubscribeOkMessage.payloadSize_le {m : SubscribeOkMessage} {b rest : Bytes}
    (h : SubscribeOkMessage.decode.Returns b m rest) :
    (m.parameters.map paramTypeId).Pairwise (· ≤ ·) ∧ m.payloadSize ≤ maxPayload ∧
      m.payloadSize + 3 + rest.length ≤ b.length := by
  obtain ⟨payload, left, hmessage, hfields⟩ := payload_of_decodeFrame h
  obtain ⟨hframe, hmax⟩ := decodeMessage_length hmessage
  simp only [returns_bind, returns_ensureLen, returns_slice, returns_pure] at hfields
  obtain ⟨trackAlias, r1, halias, params, r2, hparams, len, r3, hlen, -, _, ⟨hle, rfl⟩, props, _,
    ⟨-, rfl, rfl⟩, rfl, -⟩ := hfields
  have h1 := varintSize_add_le halias
  obtain ⟨hsorted, h2⟩ := parameters_of_returns hparams
  have h3 := blockSize_add_le hlen hle
  refine ⟨hsorted, ?_, ?_⟩
  all_goals
    simp only [payloadSize]
    omega

/-- An accepted SUBSCRIBE_OK whose only filter is NextGroupStart can be passed on. -/
theorem SubscribeOkMessage.passedOn {b rest : Bytes} {m : SubscribeOkMessage}
    (h : SubscribeOkMessage.decode.Returns b m rest)
    (hfilters : ∀ f, MessageParameter.subscriptionFilter f ∈ m.parameters → f = .nextGroupStart) :
    m.PassedOn b rest := by
  obtain ⟨hsorted, hmax, hsize⟩ := payloadSize_le h
  obtain ⟨params, hparams⟩ := exists_encodeParameters ⟨hsorted, hfilters⟩
  have hencode : ∃ frame, m.encode = .ok frame := ⟨_, ok_bind.mpr ⟨params, hparams, rfl⟩⟩
  obtain ⟨frame, hframe⟩ := hencode
  have hemits := m.emits hframe
  refine ⟨frame, hframe, ?_, (hemits.takes hmax).returns⟩
  obtain ⟨payload, rfl, hpayload, -⟩ := hemits
  simp only [encodeMessage_eq, List.length_append, length_encodeVarint, hpayload]
  show 1 + 2 + _ + _ ≤ _
  omega

/-- A SUBSCRIBE_OK with the filter LargestObject, in nine bytes. -/
def largestObjectFilter : Bytes := [0x04, 0x00, 0x06, 0x07, 0x01, 0x21, 0x01, 0x02, 0x00]

/-- It is accepted, and no encoder writes its filter. -/
theorem not_passedOn_largestObjectFilter :
    ¬∀ b rest m, SubscribeOkMessage.decode.Returns b m rest → m.PassedOn b rest := by
  intro h
  have hread : SubscribeOkMessage.decode.Returns largestObjectFilter
      ⟨7, [.subscriptionFilter .largestObject], []⟩ [] := by decide
  obtain ⟨frame, hframe, -⟩ := h _ _ _ hread
  cases hframe

/-- A SUBSCRIBE_OK with a skipped parameter and NextGroupStart. -/
theorem passedOn_nextGroupStart :
    SubscribeOkMessage.PassedOn ⟨7, [.subscriptionFilter .nextGroupStart], [0x61]⟩
      [0x04, 0x00, 0x0a, 0x07, 0x02, 0x08, 0x05, 0x21, 0x01, 0x01, 0x01, 0x61, 0x62] [] := by
  refine SubscribeOkMessage.passedOn (by decide) fun f hf => ?_
  simpa using hf

end Moqt.Wire
