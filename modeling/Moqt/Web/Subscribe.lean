import Moqt.Web.Message
import Moqt.Wire.Accepted
import Mathlib.Data.List.Forall2
import Mathlib.Algebra.Order.BigOperators.Group.List

/-! SUBSCRIBE and SUBSCRIBE_OK between the browser client and the relay.  The two sides give
different numbers to the same parameters, and agree only on messages without any. -/

namespace Moqt.Web

open Library Decoder

/-! ### Parameters -/

/-- The parameter is of one of the kinds of the browser's module. -/
def MessageParameter.Defined : MessageParameter → Prop
  | ⟨typeId, .number _⟩ => typeId ∈ [PARAM_SUBSCRIPTION_FILTER, PARAM_LARGEST_OBJECT, PARAM_FORWARD]
  | ⟨typeId, .bytes _⟩ => typeId = PARAM_AUTHORIZATION

/-- The parameters of the two sides that stand for each other.  The browser has one number for a
largest object, so that its value is left open.  The relay has nothing for an authorization. -/
inductive Corresponds : MessageParameter → Wire.MessageParameter → Prop
  | subscriptionFilter :
    Corresponds subscriptionFilterNextGroupStart (.subscriptionFilter .nextGroupStart)
  | largestObject (value : Value) (group object : UInt64) :
    Corresponds ⟨PARAM_LARGEST_OBJECT, value⟩ (.largestObject group object)
  | forward (value : UInt8) :
    Corresponds ⟨PARAM_FORWARD, .number value.toNat⟩ (.forward value)

theorem MessageParameter.Defined.typeId_mem {p : MessageParameter} (h : p.Defined) :
    p.typeId ∈ [2, 4, 5, 6] := by
  match p, h with
  | ⟨_, .number _⟩, h => exact List.mem_cons_of_mem 2 h
  | ⟨_, .bytes _⟩, h =>
    obtain rfl := h
    exact List.mem_cons_self

/-- The relay skips a parameter of one of the types 2 and 4, and refuses the types 5 and 6. -/
theorem decodeParameter_skips {typeId : Nat} (h : typeId ∈ [2, 4, 5, 6]) {tail r : Bytes}
    {read : UInt64 × Option Wire.MessageParameter}
    (hread : (Wire.decodeParameter 0).Returns (encodeVarint typeId ++ tail) read r) :
    read.2 = none := by
  have hsmall : typeId < 2 ^ 42 := by
    revert h
    simp only [List.mem_cons, List.not_mem_nil, or_false]
    omega
  rw [(encodeVarint_of_lt hsmall).1] at hread
  simp only [Wire.decodeParameter, returns_bind, Wire.returns_checkedAdd, returns_pure] at hread
  obtain ⟨delta, _, hdelta, _, _, ⟨-, rfl, rfl⟩, value, _, hvalue, rfl, -⟩ := hread
  obtain ⟨rfl, rfl⟩ := (Wire.takes_decodeVarint _ _).unique hdelta
  rw [UInt64.zero_add] at hvalue
  simp only [List.mem_cons, List.not_mem_nil, or_false] at h
  rcases h with rfl | rfl | rfl | rfl
  · obtain ⟨_, _, -, hnone⟩ := returns_bind.mp
      (show (Wire.decodeVarint >>= fun _ => pure none).Returns _ value _ from hvalue)
    exact (returns_pure.mp hnone).1.symm
  · obtain ⟨_, _, -, hnone⟩ := returns_bind.mp
      (show (Wire.decodeVarint >>= fun _ => pure none).Returns _ value _ from hvalue)
    exact (returns_pure.mp hnone).1.symm
  · exact absurd hvalue returns_bail
  · exact absurd hvalue returns_bail

/-- The relay finds fewer parameters than the browser has sent. -/
theorem decodeParameters_lt {p : MessageParameter} {ps : List MessageParameter} (hp : p.Defined)
    {params : List Wire.MessageParameter} {r : Bytes}
    (h : Wire.decodeParameters.Returns (encodeParameters (p :: ps)) params r) :
    params.length < (p :: ps).length := by
  obtain ⟨n, hn, hle, -⟩ := exists_takes_encodeVarint (p :: ps).length
  simp only [Wire.decodeParameters, encodeParameters, returns_bind, returns_withCapacity,
    returns_pure] at h
  obtain ⟨_, _, hcount, -, _, ⟨-, rfl⟩, s, _, hloop, rfl, -⟩ := h
  obtain ⟨rfl, rfl⟩ := (hn _).unique hcount
  cases hzero : n.toNat with
  | zero =>
    rw [hzero] at hloop
    obtain ⟨rfl, -⟩ := returns_forCountFrom_zero.mp hloop
    simp
  | succ count =>
    rw [hzero] at hloop
    obtain ⟨mid, _, hbody, hrest⟩ := returns_forCountFrom_succ.mp hloop
    obtain ⟨read, _, hread, hmid⟩ := returns_bind.mp hbody
    obtain ⟨rfl, rfl⟩ := returns_pure.mp hmid
    simp only [encodeParametersFrom, Nat.cast_zero, sub_zero, List.append_assoc] at hread
    have hnone := decodeParameter_skips hp.typeId_mem hread
    obtain ⟨others, hothers, hfew, -⟩ := Wire.ParameterLoop.read_of_returns hrest
    obtain ⟨typeId, value⟩ := read
    obtain rfl : value = none := hnone
    have hparams : s.params = others := by
      rw [hothers]
      rfl
    rw [hparams]
    simp only [List.length_cons] at hle ⊢
    omega

/-! ### From the browser to the relay -/

/-- A namespace of at most 32 fields that are not empty, and parameters of the kinds that there
are. -/
structure SubscribeMessage.Valid (msg : SubscribeMessage) : Prop where
  count : msg.trackNamespace.fields.length ≤ 32
  nonempty : ∀ field ∈ msg.trackNamespace.fields, field ≠ []
  parameters : ∀ p ∈ msg.parameters, p.Defined

/-- The relay reads what the browser has written. -/
def SubscribeMessage.ReadByRelay (msg : SubscribeMessage) : Prop :=
  ∃ m rest, Wire.SubscribeMessage.decode.Returns (encodeSubscribe msg) m rest ∧
    m.requestId.toNat = msg.requestId ∧ m.trackNamespace.fields = msg.trackNamespace.fields ∧
    m.trackName = msg.trackName ∧ List.Forall₂ Corresponds msg.parameters m.parameters

theorem varintSize_le (v : UInt64) : Wire.varintSize v ≤ 9 := by
  unfold Wire.varintSize
  repeat' split
  all_goals decide

theorem encodeBlock_eq {bytes : Bytes} (h : bytes.length < 2 ^ 42) :
    encodeBlock bytes = Wire.encodeVarint bytes.length.toUInt64 ++ bytes := by
  rw [encodeBlock, (encodeVarint_of_lt h).1]

theorem encodeNamespaceFields_eq {fields : List Bytes} (hnonempty : ∀ field ∈ fields, field ≠ [])
    (hsmall : ∀ field ∈ fields, field.length < 2 ^ 42) :
    Wire.encodeNamespaceFields fields = .ok (fields.flatMap encodeBlock) := by
  induction fields with
  | nil => rfl
  | cons field fields ih =>
    have hrest := ih (fun other h => hnonempty other (List.mem_cons_of_mem _ h))
      (fun other h => hsmall other (List.mem_cons_of_mem _ h))
    have hfield : field ≠ [] := hnonempty field List.mem_cons_self
    rw [Wire.encodeNamespaceFields, ok_bind]
    refine ⟨(), ok_ensure.mpr (by simpa using hfield), ok_bind.mpr ⟨_, hrest, ?_⟩⟩
    rw [ok_pure, List.flatMap_cons, encodeBlock_eq (hsmall field List.mem_cons_self)]

theorem encodeTrackNamespace_eq {ns : Wire.TrackNamespace} (hcount : ns.fields.length ≤ 32)
    (hnonempty : ∀ field ∈ ns.fields, field ≠ [])
    (hsmall : ∀ field ∈ ns.fields, field.length < 2 ^ 42) :
    Wire.encodeTrackNamespace ns = .ok (encodeTrackNamespace ⟨ns.fields⟩) := by
  rw [Wire.encodeTrackNamespace, ok_bind]
  refine ⟨(), ok_ensure.mpr ?_, ok_bind.mpr ⟨_, encodeNamespaceFields_eq hnonempty hsmall, ?_⟩⟩
  · rw [decide_eq_true_eq, UInt64.le_iff_toNat_le, Wire.toNat_length (by omega)]
    exact hcount
  · have hlt : ns.fields.length < 2 ^ 42 := by omega
    rw [ok_pure, encodeTrackNamespace, (encodeVarint_of_lt hlt).1]

/-- A valid namespace of a length that a frame has room for is read by the relay as it was
written. -/
theorem takes_encodeTrackNamespace {ns : Wire.TrackNamespace} (hcount : ns.fields.length ≤ 32)
    (hnonempty : ∀ field ∈ ns.fields, field ≠ [])
    (hsmall : ∀ field ∈ ns.fields, field.length ≤ Wire.maxPayload) :
    Wire.decodeTrackNamespace.Takes (encodeTrackNamespace ⟨ns.fields⟩) ns := by
  unfold Wire.maxPayload at hsmall
  have heq := encodeTrackNamespace_eq hcount hnonempty
    fun field hmem => by have := hsmall field hmem; omega
  refine Wire.takes_decodeTrackNamespace heq ?_
  rw [Wire.encodeTrackNamespace_ok heq, Wire.namespaceSize]
  have hsum : (ns.fields.map Wire.blockSize).sum ≤ ns.fields.length * (9 + 65535) := by
    rw [← List.length_map Wire.blockSize]
    refine List.sum_le_card_nsmul _ _ fun size hsize => ?_
    obtain ⟨field, hmem, rfl⟩ := List.mem_map.mp hsize
    exact Nat.add_le_add (varintSize_le _) (hsmall field hmem)
  have hcountSize := varintSize_le ns.fields.length.toUInt64
  omega

/-- The fields of a namespace are no longer than its encoding. -/
theorem length_le_of_mem {fields : List Bytes} {field : Bytes} (h : field ∈ fields) :
    field.length ≤ (fields.flatMap encodeBlock).length := by
  rw [List.length_flatMap]
  refine le_trans ?_ (List.le_sum_of_mem (List.mem_map_of_mem h))
  rw [length_encodeBlock]
  exact Nat.le_add_left _ _

theorem takes_encodeParameters_nil : Wire.decodeParameters.Takes (encodeParameters []) [] :=
  Wire.takes_decodeParameters (show Wire.encodeParameters [] = .ok [0] from rfl) (by decide)

theorem encodeSubscribe_eq (msg : SubscribeMessage) :
    encodeSubscribe msg = Wire.encodeMessage Wire.MSG_SUBSCRIBE msg.payload :=
  encodeMessage_eq (show Wire.MSG_SUBSCRIBE.toNat ≠ 2 ^ 56 by decide) msg.payload

/-- The relay reads a SUBSCRIBE of the browser exactly if there are no parameters, the payload fits
its length field and the request ID is written without a loss. -/
theorem SubscribeMessage.readByRelay_iff {msg : SubscribeMessage} (h : msg.Valid) :
    msg.ReadByRelay ↔ msg.parameters = [] ∧ msg.payload.length ≤ Wire.maxPayload ∧
      msg.requestId < 2 ^ 64 ∧ msg.requestId ≠ 2 ^ 56 := by
  obtain ⟨hcount, hnonempty, hdefined⟩ := h
  obtain ⟨id, hid, -, hidEq⟩ := exists_takes_encodeVarint msg.requestId
  obtain ⟨delta, hdelta, -⟩ := exists_takes_encodeVarint msg.requiredRequestIdDelta
  have hpayload : msg.payload = encodeVarint msg.requestId ++
      (encodeVarint msg.requiredRequestIdDelta ++ (encodeTrackNamespace msg.trackNamespace ++
        (encodeBlock msg.trackName ++ encodeParameters msg.parameters))) := by
    simp only [payload, List.append_assoc]
  unfold ReadByRelay
  rw [encodeSubscribe_eq]
  constructor
  · rintro ⟨m, rest, hread, hrequestId, hfields, hname, hparams⟩
    obtain ⟨-, -, hsize⟩ := Wire.SubscribeMessage.of_returns hread
    obtain ⟨hmax, r1, r2, r3, r4, left, h1, h2, h3, h4, h5⟩ :=
      Wire.SubscribeMessage.returns_payload hread
    rw [hpayload] at h1
    obtain ⟨rfl, rfl⟩ := (hid _).unique h1
    obtain ⟨-, rfl⟩ := (hdelta _).unique h2
    simp only [Wire.SubscribeMessage.payloadSize] at hsize
    have hsmall : ∀ field ∈ m.trackNamespace.fields, field.length ≤ Wire.maxPayload := by
      intro field hmem
      have hle := List.le_sum_of_mem (List.mem_map_of_mem (f := Wire.blockSize) hmem)
      simp only [Wire.namespaceSize] at hsize
      simp only [Wire.blockSize] at hle
      omega
    have hns := takes_encodeTrackNamespace (hfields ▸ hcount) (hfields ▸ hnonempty) hsmall
    rw [hfields] at hns
    obtain ⟨-, rfl⟩ := (hns _).unique h3
    have hblock : m.trackName.length ≤ Wire.maxPayload := by
      simp only [Wire.blockSize] at hsize
      omega
    rw [hname] at hblock
    unfold Wire.maxPayload at hblock
    rw [encodeBlock_eq (by omega)] at h4
    obtain ⟨-, rfl⟩ := (Wire.takes_decodeBytes _ (by omega) _).unique h4
    cases hps : msg.parameters with
    | nil =>
      rw [hps] at h5
      obtain ⟨-, hleft⟩ := takes_encodeParameters_nil.unique h5
      obtain ⟨-, rfl⟩ := List.append_eq_nil_iff.mp hleft
      exact ⟨rfl, by simpa using hmax, hidEq.mp hrequestId⟩
    | cons p ps =>
      rw [hps] at h5 hparams
      have hp := hdefined p (by rw [hps]; exact List.mem_cons_self)
      have hlt := decodeParameters_lt hp h5
      rw [hparams.length_eq] at hlt
      exact absurd hlt (Nat.lt_irrefl _)
  · rintro ⟨hps, hmax, hrequestId⟩
    have hlength := hmax
    rw [hpayload] at hlength
    simp only [List.length_append, length_encodeBlock, encodeTrackNamespace,
      Wire.maxPayload] at hlength
    have hsmall : ∀ field ∈ msg.trackNamespace.fields, field.length ≤ Wire.maxPayload := by
      intro field hmem
      have hle := length_le_of_mem hmem
      unfold Wire.maxPayload
      omega
    have hns := @takes_encodeTrackNamespace ⟨msg.trackNamespace.fields⟩ hcount hnonempty hsmall
    have hname : msg.trackName.length < 2 ^ 42 := by omega
    have hblock : (Wire.decodeBytes "track name truncated").Takes (encodeBlock msg.trackName)
        msg.trackName := by
      rw [encodeBlock_eq hname]
      exact Wire.takes_decodeBytes _ (by omega)
    have hfields : Wire.SubscribeMessage.decode.Takes
        (Wire.encodeMessage Wire.MSG_SUBSCRIBE msg.payload)
        ⟨id, delta, ⟨msg.trackNamespace.fields⟩, msg.trackName, []⟩ := by
      refine Wire.takes_decodeFrame [] hmax (Takes.returns ?_)
      rw [hpayload, hps]
      exact hid.bind (hdelta.bind (hns.bind (hblock.bind takes_encodeParameters_nil.bind_pure)))
    refine ⟨_, [], hfields.returns, hidEq.mpr hrequestId, rfl, rfl, ?_⟩
    rw [hps]
    exact .nil

/-! ### From the relay to the browser -/

/-- The browser reads the SUBSCRIBE of a frame. -/
def ReadsSubscribe (m : Wire.SubscribeMessage) (frame : Bytes) : Prop :=
  ∃ msg, decodeSubscribe frame = .ok msg ∧ msg.requestId = m.requestId.toNat ∧
    msg.requiredRequestIdDelta = m.requiredRequestIdDelta.toNat ∧
    msg.trackNamespace.fields = m.trackNamespace.fields ∧ msg.trackName = m.trackName ∧
    List.Forall₂ Corresponds msg.parameters m.parameters

/-- The browser reads the SUBSCRIBE_OK of a frame. -/
def ReadsSubscribeOk (m : Wire.SubscribeOkMessage) (frame : Bytes) : Prop :=
  ∃ msg, decodeSubscribeOk frame = .ok msg ∧ msg.trackAlias = m.trackAlias.toNat ∧
    List.Forall₂ Corresponds msg.parameters m.parameters ∧
    msg.trackPropertiesRaw = m.trackPropertiesRaw

/-- Of the parameters that the relay writes the browser finds none.  It gets past an empty list, if
that is there. -/
theorem decodeParameters_wire {params : List Wire.MessageParameter} {w payload : Bytes}
    (hw : Wire.encodeParameters params = .ok w) {pos end_ bytesRead : Nat}
    (hat : StandsAt w payload pos) {read : List MessageParameter}
    (h : decodeParameters (payload.take end_) pos = .ok (read, bytesRead)) :
    read = [] ∧ (params = [] → pos + w.length ≤ end_ ∧ bytesRead = w.length) := by
  obtain ⟨before, rest, rfl, rfl⟩ := hat
  simp only [Wire.encodeParameters, ok_bind, ok_pure] at hw
  obtain ⟨body, hbody, rfl⟩ := hw
  simp only [decodeParameters, ok_bind, ok_pure, Prod.exists, Prod.mk.injEq, List.append_assoc,
    decodeVarint_take_iff (isCode_encode _)] at h
  obtain ⟨_, _, ⟨hle, rfl, rfl⟩, _, pos, hloop, rfl, rfl⟩ := h
  cases params with
  | nil =>
    obtain rfl := Outcome.ok.inj hbody
    obtain ⟨rfl, rfl⟩ := Prod.mk.inj (Outcome.ok.inj hloop)
    exact ⟨rfl, fun _ => ⟨hle, Nat.add_sub_cancel_left _ _⟩⟩
  | cons p ps =>
    refine ⟨?_, fun h => absurd h (List.cons_ne_nil p ps)⟩
    simp only [Wire.encodeParametersFrom, ok_bind, ok_ensure, ok_pure] at hbody
    obtain ⟨-, -, value, -, tail, -, rfl⟩ := hbody
    cases hcount : numberOf (Wire.encodeVarint (p :: ps).length.toUInt64) with
    | zero =>
      rw [hcount] at hloop
      exact (Prod.mk.inj (Outcome.ok.inj hloop)).1.symm
    | succ count =>
      rw [hcount] at hloop
      generalize Wire.encodeVarint (p :: ps).length.toUInt64 = c at hloop
      have hassoc : before ++ (c ++ (Wire.encodeVarint (Wire.paramTypeId p - 0) ++ value ++ tail ++
          rest)) = (before ++ c) ++ (Wire.encodeVarint (Wire.paramTypeId p - 0) ++
            (value ++ (tail ++ rest))) := by
        simp only [List.append_assoc]
      rw [hassoc, ← List.length_append] at hloop
      simp only [decodeParametersFrom, ok_bind, ok_pure, Prod.exists, Prod.mk.injEq,
        decodeVarint_take_iff (isCode_encode _)] at hloop
      obtain ⟨_, _, ⟨-, rfl, rfl⟩, found, next, hfound, others, _, hothers, rfl, rfl⟩ := hloop
      have htype :
          2 ^ 3 ≤ Double.add 0 (numberOf (Wire.encodeVarint (Wire.paramTypeId p - 0))) := by
        cases p <;> simp only [Wire.paramTypeId] <;> decide
      rw [decodeParameterValue_none htype hfound, decodeParametersFrom_skips htype hothers]
      rfl

theorem decodeParameters_nil {payload : Bytes} {pos end_ : Nat} (hat : StandsAt [0] payload pos)
    (h : pos + 1 ≤ end_) : decodeParameters (payload.take end_) pos = .ok ([], 1) := by
  have hcode : IsCode [0] := ⟨0, [], rfl, rfl⟩
  simp only [decodeParameters, ok_bind, ok_pure, Prod.exists, Prod.mk.injEq,
    hat.decodeVarint_iff hcode]
  exact ⟨_, _, ⟨h, rfl, rfl⟩, [], _, rfl, rfl, Nat.add_sub_cancel_left _ _⟩

/-- A namespace that fits a frame is written alike on the two sides. -/
theorem encodeTrackNamespace_wire {ns : Wire.TrackNamespace} {w : Bytes}
    (hw : Wire.encodeTrackNamespace ns = .ok w) (hcount : ns.fields.length < 2 ^ 64)
    (hsmall : ∀ field ∈ ns.fields, field.length ≤ Wire.maxPayload) :
    w = encodeTrackNamespace ⟨ns.fields⟩ ∧ ns.fields.length ≤ 32 := by
  unfold Wire.maxPayload at hsmall
  have hfields := hw
  simp only [Wire.encodeTrackNamespace, ok_bind, ok_ensure, ok_pure, decide_eq_true_eq] at hfields
  obtain ⟨-, hmax, _, hfields, -⟩ := hfields
  rw [UInt64.le_iff_toNat_le, Wire.toNat_length hcount] at hmax
  have heq := @encodeTrackNamespace_eq ns hmax (Wire.encodeNamespaceFields_ok hfields).1
    fun field hmem => by have := hsmall field hmem; omega
  rw [hw] at heq
  exact ⟨Outcome.ok.inj heq, hmax⟩

/-- The browser gets past a namespace of the relay if it has read what it is. -/
theorem decodeTrackNamespace_wire {ns : Wire.TrackNamespace} {w payload : Bytes}
    (hw : Wire.encodeTrackNamespace ns = .ok w) {pos end_ bytesRead : Nat}
    (hat : StandsAt w payload pos) (hend : end_ ≤ Wire.maxPayload) {read : TrackNamespace}
    (h : decodeTrackNamespace (payload.take end_) pos = .ok (read, bytesRead))
    (heq : read.fields = ns.fields) : pos + w.length ≤ end_ ∧ bytesRead = w.length := by
  obtain ⟨before, rest, rfl, rfl⟩ := hat
  have hread := h
  simp only [decodeTrackNamespace, ok_bind, ok_pure, Prod.exists, Prod.mk.injEq] at hread
  obtain ⟨count, _, hcount, fields, _, hloop, rfl, -⟩ := hread
  obtain rfl : fields = ns.fields := heq
  obtain ⟨hlength, hfields⟩ := length_of_decodeNamespaceFields hloop
  rw [List.length_take] at hfields
  have hnumber : count ≤ 32 := by
    have hencode := hw
    simp only [Wire.encodeTrackNamespace, ok_bind, ok_ensure, ok_pure, decide_eq_true_eq] at hencode
    obtain ⟨-, hmax, body, -, rfl⟩ := hencode
    have hmax : ns.fields.length.toUInt64.toNat ≤ 32 := UInt64.le_iff_toNat_le.mp hmax
    rw [List.append_assoc, decodeVarint_take_iff (isCode_encode _)] at hcount
    rw [hcount.2.1, numberOf_encode_iff.mpr (.inl (by omega))]
    exact hmax
  obtain ⟨rfl, hmax⟩ := encodeTrackNamespace_wire hw (by omega) fun field hmem => by
    have := hfields field hmem
    omega
  unfold Wire.maxPayload at hend
  obtain ⟨hle, -, rfl⟩ := (decodeTrackNamespace_take_iff (show ns.fields.length < 2 ^ 42 by omega)
    (fun field hmem => by have := hfields field hmem; omega) rest).mp h
  exact ⟨hle, rfl⟩

theorem decodeTrackNamespace_fits {ns : Wire.TrackNamespace} {w payload : Bytes}
    (hw : Wire.encodeTrackNamespace ns = .ok w) {pos end_ : Nat} (hat : StandsAt w payload pos)
    (hsize : w.length ≤ Wire.maxPayload) (hle : pos + w.length ≤ end_) :
    decodeTrackNamespace (payload.take end_) pos = .ok (⟨ns.fields⟩, w.length) := by
  obtain ⟨before, rest, rfl, rfl⟩ := hat
  have hlength := Wire.encodeTrackNamespace_ok hw
  rw [Wire.namespaceSize] at hlength
  unfold Wire.maxPayload at hsize
  have hsmall : ∀ field ∈ ns.fields, field.length ≤ Wire.maxPayload := by
    intro field hmem
    have hle := List.le_sum_of_mem (List.mem_map_of_mem (f := Wire.blockSize) hmem)
    simp only [Wire.blockSize] at hle
    unfold Wire.maxPayload
    omega
  have hfew : ns.fields.length ≤ (ns.fields.map Wire.blockSize).sum := by
    rw [← List.length_map Wire.blockSize]
    refine List.length_le_sum_of_one_le _ fun size hmem => ?_
    obtain ⟨field, -, rfl⟩ := List.mem_map.mp hmem
    exact Nat.le_add_right_of_le (Wire.varintSize_pos _)
  obtain ⟨rfl, hmax⟩ := encodeTrackNamespace_wire hw (by omega) hsmall
  unfold Wire.maxPayload at hsmall
  exact (decodeTrackNamespace_take_iff (show ns.fields.length < 2 ^ 42 by omega)
    (fun field hmem => by have := hsmall field hmem; omega) rest).mpr ⟨hle, rfl, rfl⟩

theorem readsSubscribe_iff {m : Wire.SubscribeMessage} {frame : Bytes} (h : m.encode = .ok frame) :
    ReadsSubscribe m frame ↔ m.parameters = [] ∧ m.payloadSize ≤ Wire.maxPayload ∧
      Readable m.requestId ∧ Readable m.requiredRequestIdDelta := by
  simp only [Wire.SubscribeMessage.encode, ok_bind, ok_pure] at h
  obtain ⟨ns, hns, params, hparams, rfl⟩ := h
  have hid := isCode_encode m.requestId
  have hdelta := isCode_encode m.requiredRequestIdDelta
  have hlen := isCode_encode m.trackName.length.toUInt64
  have hidEq := numberOf_encode_iff (v := m.requestId)
  have hdeltaEq := numberOf_encode_iff (v := m.requiredRequestIdDelta)
  have hlenEq := numberOf_encode_iff (v := m.trackName.length.toUInt64)
  have hsize : m.payloadSize = (Wire.encodeVarint m.requestId).length +
      (Wire.encodeVarint m.requiredRequestIdDelta).length + ns.length +
      (Wire.encodeVarint m.trackName.length.toUInt64).length + m.trackName.length +
      params.length := by
    simp [Wire.SubscribeMessage.payloadSize, Wire.blockSize, Wire.encodeTrackNamespace_ok hns,
      Wire.encodeParameters_ok hparams, Nat.add_assoc]
  generalize Wire.encodeVarint m.requestId = w1 at *
  generalize Wire.encodeVarint m.requiredRequestIdDelta = w2 at *
  generalize Wire.encodeVarint m.trackName.length.toUInt64 = w4 at *
  generalize hW : w1 ++ w2 ++ ns ++ w4 ++ m.trackName ++ params = payload
  have hpayload : payload.length = m.payloadSize := by
    rw [← hW, hsize]
    simp only [List.length_append]
  have hcut : payload.length % 65536 ≤ Wire.maxPayload := by
    unfold Wire.maxPayload
    omega
  have h1 : StandsAt w1 payload 0 :=
    ⟨[], w2 ++ ns ++ w4 ++ m.trackName ++ params, by simp [← hW], rfl⟩
  have h2 : StandsAt w2 payload w1.length :=
    ⟨w1, ns ++ w4 ++ m.trackName ++ params, by simp [← hW], rfl⟩
  have h3 : StandsAt ns payload (w1.length + w2.length) :=
    ⟨w1 ++ w2, w4 ++ m.trackName ++ params, by simp [← hW], by simp⟩
  have h4 : StandsAt w4 payload (w1.length + w2.length + ns.length) :=
    ⟨w1 ++ w2 ++ ns, m.trackName ++ params, by simp [← hW], by simp [Nat.add_assoc]⟩
  have h5 : StandsAt m.trackName payload (w1.length + w2.length + ns.length + w4.length) :=
    ⟨w1 ++ w2 ++ ns ++ w4, params, by simp [← hW], by simp [Nat.add_assoc]⟩
  have h6 : StandsAt params payload
      (w1.length + w2.length + ns.length + w4.length + m.trackName.length) :=
    ⟨w1 ++ w2 ++ ns ++ w4 ++ m.trackName, [], by simp [← hW], by simp [Nat.add_assoc]⟩
  have hframe : expectMessage MSG_SUBSCRIBE "SUBSCRIBE"
      (Wire.encodeMessage Wire.MSG_SUBSCRIBE payload) = _ :=
    expectMessage_encode (show Readable Wire.MSG_SUBSCRIBE from .inl (by decide)) "SUBSCRIBE"
      payload
  clear hW
  generalize hend : payload.length % 65536 = end_ at *
  simp only [ReadsSubscribe, decodeSubscribe, ok_bind, ok_pure, hframe, Outcome.ok.injEq,
    exists_eq_left', Prod.exists, Nat.zero_add, h1.decodeVarint_iff hid]
  constructor
  · rintro ⟨_, ⟨_, _, ⟨-, rfl, rfl⟩, _, _, hd, readNs, r3, hn, nameLen, _, hl, readParams, _, hp,
      rfl⟩, hidRead, hdeltaRead, hnsRead, hnameRead, hparamsRead⟩
    simp only at hidRead hdeltaRead hnsRead hnameRead hparamsRead
    obtain ⟨-, rfl, rfl⟩ := (h2.decodeVarint_iff hdelta).mp hd
    obtain ⟨-, rfl⟩ := decodeTrackNamespace_wire hns h3 hcut hn hnsRead
    obtain ⟨-, rfl, rfl⟩ := (h4.decodeVarint_iff hlen).mp hl
    -- the name that was read is part of the payload, so that its length was read as it is
    have hname : m.trackName.length ≤ end_ := by
      rw [← hnameRead]
      simp only [slice, List.length_drop, List.length_take]
      omega
    have hnumber : numberOf w4 = m.trackName.length := by
      unfold Wire.maxPayload at hcut
      have hnat := Wire.toNat_length (show m.trackName.length < 2 ^ 64 by omega)
      rw [hlenEq.mpr (.inl (by omega)), hnat]
    rw [hnumber] at hp
    obtain ⟨rfl, hfits⟩ := decodeParameters_wire hparams h6 hp
    have hps : m.parameters = [] := List.forall₂_nil_left_iff.mp hparamsRead
    refine ⟨hps, ?_, hidEq.mp hidRead, hdeltaEq.mp hdeltaRead⟩
    obtain ⟨hle, -⟩ := hfits hps
    omega
  · rintro ⟨hps, hmax, hidOk, hdeltaOk⟩
    have hall : end_ = m.payloadSize := by
      unfold Wire.maxPayload at hmax
      omega
    have hnumber : numberOf w4 = m.trackName.length := by
      unfold Wire.maxPayload at hmax
      have hnat := Wire.toNat_length (show m.trackName.length < 2 ^ 64 by omega)
      rw [hlenEq.mpr (.inl (by omega)), hnat]
    rw [hps] at hparams
    obtain rfl : [0] = params := Outcome.ok.inj (show .ok [0] = Outcome.ok params from hparams)
    simp only [List.length_cons, List.length_nil] at hsize
    have hd := h2.decodeVarint_ok hdelta (show _ ≤ end_ by omega)
    have hn := decodeTrackNamespace_fits hns h3 (by omega) (show _ ≤ end_ by omega)
    have hl := h4.decodeVarint_ok hlen (show _ ≤ end_ by omega)
    have hp := decodeParameters_nil h6 (show _ ≤ end_ by omega)
    rw [← hnumber] at hp
    refine ⟨_, ⟨_, _, ⟨by omega, rfl, rfl⟩, _, _, hd, _, _, hn, _, _, hl, _, _, hp, rfl⟩,
      hidEq.mpr hidOk, hdeltaEq.mpr hdeltaOk, rfl, ?_, ?_⟩
    · rw [hnumber]
      exact h5.slice (by omega)
    · rw [hps]
      exact .nil

theorem readsSubscribeOk_iff {m : Wire.SubscribeOkMessage} {frame : Bytes}
    (h : m.encode = .ok frame) :
    ReadsSubscribeOk m frame ↔ m.parameters = [] ∧ m.payloadSize ≤ Wire.maxPayload ∧
      Readable m.trackAlias := by
  simp only [Wire.SubscribeOkMessage.encode, ok_bind, ok_pure] at h
  obtain ⟨params, hparams, rfl⟩ := h
  have halias := isCode_encode m.trackAlias
  have hlen := isCode_encode m.trackPropertiesRaw.length.toUInt64
  have haliasEq := numberOf_encode_iff (v := m.trackAlias)
  have hlenEq := numberOf_encode_iff (v := m.trackPropertiesRaw.length.toUInt64)
  have hsize : m.payloadSize = (Wire.encodeVarint m.trackAlias).length + params.length +
      (Wire.encodeVarint m.trackPropertiesRaw.length.toUInt64).length +
      m.trackPropertiesRaw.length := by
    simp [Wire.SubscribeOkMessage.payloadSize, Wire.blockSize, Wire.encodeParameters_ok hparams,
      Nat.add_assoc]
  generalize Wire.encodeVarint m.trackAlias = w1 at *
  generalize Wire.encodeVarint m.trackPropertiesRaw.length.toUInt64 = w3 at *
  generalize hW : w1 ++ params ++ w3 ++ m.trackPropertiesRaw = payload
  have hpayload : payload.length = m.payloadSize := by
    rw [← hW, hsize]
    simp only [List.length_append]
  have hcut : payload.length % 65536 ≤ Wire.maxPayload := by
    unfold Wire.maxPayload
    omega
  have h1 : StandsAt w1 payload 0 :=
    ⟨[], params ++ w3 ++ m.trackPropertiesRaw, by simp [← hW], rfl⟩
  have h2 : StandsAt params payload w1.length :=
    ⟨w1, w3 ++ m.trackPropertiesRaw, by simp [← hW], rfl⟩
  have h3 : StandsAt w3 payload (w1.length + params.length) :=
    ⟨w1 ++ params, m.trackPropertiesRaw, by simp [← hW], by simp⟩
  have h4 : StandsAt m.trackPropertiesRaw payload (w1.length + params.length + w3.length) :=
    ⟨w1 ++ params ++ w3, [], by simp [← hW], by simp [Nat.add_assoc]⟩
  have hframe : expectMessage MSG_SUBSCRIBE_OK "SUBSCRIBE_OK"
      (Wire.encodeMessage Wire.MSG_SUBSCRIBE_OK payload) = _ :=
    expectMessage_encode (show Readable Wire.MSG_SUBSCRIBE_OK from .inl (by decide)) "SUBSCRIBE_OK"
      payload
  clear hW
  generalize hend : payload.length % 65536 = end_ at *
  simp only [ReadsSubscribeOk, decodeSubscribeOk, ok_bind, ok_pure, hframe, Outcome.ok.injEq,
    exists_eq_left', Prod.exists, Nat.zero_add, h1.decodeVarint_iff halias]
  constructor
  · rintro ⟨_, ⟨_, _, ⟨-, rfl, rfl⟩, readParams, _, hp, propsLen, _, hl, rfl⟩, haliasRead,
      hparamsRead, hpropsRead⟩
    simp only at haliasRead hparamsRead hpropsRead
    obtain ⟨rfl, hfits⟩ := decodeParameters_wire hparams h2 hp
    have hps : m.parameters = [] := List.forall₂_nil_left_iff.mp hparamsRead
    obtain ⟨-, rfl⟩ := hfits hps
    obtain ⟨hle, rfl, rfl⟩ := (h3.decodeVarint_iff hlen).mp hl
    refine ⟨hps, ?_, haliasEq.mp haliasRead⟩
    -- the properties are not cut off, so that the payload is not either
    have hlength := congrArg List.length hpropsRead
    simp only [slice, List.length_drop, List.length_take] at hlength
    omega
  · rintro ⟨hps, hmax, haliasOk⟩
    unfold Wire.maxPayload at hmax
    have hall : end_ = m.payloadSize := by omega
    have hnumber : numberOf w3 = m.trackPropertiesRaw.length := by
      have hnat := Wire.toNat_length (show m.trackPropertiesRaw.length < 2 ^ 64 by omega)
      rw [hlenEq.mpr (.inl (by omega)), hnat]
    rw [hps] at hparams
    obtain rfl : [0] = params := Outcome.ok.inj (show .ok [0] = Outcome.ok params from hparams)
    simp only [List.length_cons, List.length_nil] at hsize
    have hp := decodeParameters_nil h2 (show _ ≤ end_ by omega)
    have hl := h3.decodeVarint_ok hlen
      (show _ ≤ end_ by simp only [List.length_cons, List.length_nil]; omega)
    refine ⟨_, ⟨_, _, ⟨by omega, rfl, rfl⟩, _, _, hp, _, _, hl, rfl⟩, haliasEq.mpr haliasOk, ?_, ?_⟩
    · rw [hps]
      exact .nil
    · rw [hnumber]
      exact h4.slice (by simp only [List.length_cons, List.length_nil]; omega)

/-! ### Agreement -/

/-- The two sides read each other's messages exactly if these have no parameters, fit a frame, and
have numbers that both sides have room for. -/
theorem parameterMessages_iff {msg : SubscribeMessage} (hmsg : msg.Valid)
    {m : Wire.SubscribeMessage} {frame : Bytes} (hm : m.encode = .ok frame)
    {ok : Wire.SubscribeOkMessage} {okFrame : Bytes} (hok : ok.encode = .ok okFrame) :
    (msg.ReadByRelay ↔ msg.parameters = [] ∧ msg.payload.length ≤ Wire.maxPayload ∧
      msg.requestId < 2 ^ 64 ∧ msg.requestId ≠ 2 ^ 56) ∧
    (ReadsSubscribe m frame ↔ m.parameters = [] ∧ m.payloadSize ≤ Wire.maxPayload ∧
      Readable m.requestId ∧ Readable m.requiredRequestIdDelta) ∧
    (ReadsSubscribeOk ok okFrame ↔ ok.parameters = [] ∧ ok.payloadSize ≤ Wire.maxPayload ∧
      Readable ok.trackAlias) :=
  ⟨SubscribeMessage.readByRelay_iff hmsg, readsSubscribe_iff hm, readsSubscribeOk_iff hok⟩

/-- A SUBSCRIBE of the browser, as its subscriber sends it. -/
def nextGroupStartSubscribe : SubscribeMessage :=
  ⟨0, 0, ⟨[[0x61]]⟩, [0x62], [subscriptionFilterNextGroupStart]⟩

example : Wire.SubscribeMessage.decode.Returns (encodeSubscribe nextGroupStartSubscribe)
    ⟨0, 0, ⟨[[0x61]]⟩, [0x62], []⟩ [] := by decide

/-- The relay takes the filter for a timeout, which it skips. -/
theorem not_readByRelay_nextGroupStart :
    ¬∀ msg : SubscribeMessage, msg.Valid → msg.ReadByRelay := by
  intro h
  have hvalid : nextGroupStartSubscribe.Valid := by
    refine ⟨by decide, by decide, ?_⟩
    simp [nextGroupStartSubscribe, subscriptionFilterNextGroupStart, MessageParameter.Defined]
  obtain ⟨hnone, -⟩ := (SubscribeMessage.readByRelay_iff hvalid).mp (h _ hvalid)
  cases hnone

theorem parameterMessages_plain :
    SubscribeMessage.ReadByRelay ⟨2, 0, ⟨[[0x61]]⟩, [0x62], []⟩ ∧
      ReadsSubscribe ⟨1, 0, ⟨[[0x61]]⟩, [0x62], []⟩
        [0x03, 0x00, 0x08, 0x01, 0x00, 0x01, 0x01, 0x61, 0x01, 0x62, 0x00] ∧
      ReadsSubscribeOk ⟨7, [], [0x63]⟩ [0x04, 0x00, 0x04, 0x07, 0x00, 0x01, 0x63] := by
  have hmsg : SubscribeMessage.Valid ⟨2, 0, ⟨[[0x61]]⟩, [0x62], []⟩ :=
    ⟨by decide, by decide, by simp⟩
  obtain ⟨h1, h2, h3⟩ := parameterMessages_iff hmsg
    (show Wire.SubscribeMessage.encode ⟨1, 0, ⟨[[0x61]]⟩, [0x62], []⟩ = .ok _ from rfl)
    (show Wire.SubscribeOkMessage.encode ⟨7, [], [0x63]⟩ = .ok _ from rfl)
  exact ⟨h1.mpr ⟨rfl, by decide, by decide, by decide⟩,
    h2.mpr ⟨rfl, by decide, .inl (by decide), .inl (by decide)⟩,
    h3.mpr ⟨rfl, by decide, .inl (by decide)⟩⟩

end Moqt.Web
