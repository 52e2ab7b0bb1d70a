import Moqt.Web.Varint
import Moqt.Wire.Frame

/-! Control messages of the browser client.  A decoder is given a buffer and an offset, and returns
how many bytes it has read.  Positions are added exactly: a sum that a double does not hold is past
the end of any buffer, and so is the exact one. -/

namespace Moqt.Web

open Library

def MSG_SUBSCRIBE : Nat := 0x03
def MSG_SUBSCRIBE_OK : Nat := 0x04
def MSG_PUBLISH_DONE : Nat := 0x0b
def MSG_SETUP : Nat := 0x2f00

/-- `Uint8Array.slice`: of the bytes from `start` to `stop`, those that there are. -/
def slice (buf : Bytes) (start stop : Nat) : Bytes := (buf.take stop).drop start

/-- The byte at an index; there is one wherever the code reads one. -/
def byteAt (buf : Bytes) (index : Nat) : Nat := (buf[index]?.getD 0).toNat

/-! ### Frames -/

def encodeMessage (msgType : Nat) (payload : Bytes) : Bytes :=
  let len := payload.length
  encodeVarint msgType ++ [UInt8.ofNat (len >>> 8 &&& 0xff), UInt8.ofNat (len &&& 0xff)] ++ payload

def decodeMessage (buf : Bytes) (offset : Nat) : Outcome (Nat × Bytes × Nat) := do
  let (msgType, typeLen) ← decodeVarint buf offset
  let lenOffset := offset + typeLen
  Outcome.ensure (lenOffset + 2 ≤ buf.length) "message: need 2 bytes for length"
  let payloadLen := byteAt buf lenOffset <<< 8 ||| byteAt buf (lenOffset + 1)
  let payloadOffset := lenOffset + 2
  Outcome.ensure (payloadOffset + payloadLen ≤ buf.length)
    s!"message: need {payloadLen} bytes for payload, have {buf.length - payloadOffset}"
  return (msgType, slice buf payloadOffset (payloadOffset + payloadLen), typeLen + 2 + payloadLen)

/-- What the messages' decoders start with: a frame of the expected type. -/
def expectMessage (expected : Nat) (name : String) (frame : Bytes) : Outcome Bytes := do
  let (msgType, payload, _) ← decodeMessage frame 0
  Outcome.ensure (msgType == expected)
    s!"expected {name}, got 0x{String.ofList (Nat.toDigits 16 msgType)}"
  return payload

theorem encodeMessage_eq {msgType : UInt64} (h : msgType.toNat ≠ 2 ^ 56) (payload : Bytes) :
    encodeMessage msgType.toNat payload = Wire.encodeMessage msgType payload := by
  have hmask (n : Nat) : n &&& 0xff = n % 256 := Nat.and_two_pow_sub_one_eq_mod n 8
  have hhigh : UInt8.ofNat (payload.length >>> 8 &&& 0xff) =
      (payload.length.toUInt16 >>> 8).toUInt8 := by
    apply UInt8.toNat.inj
    rw [UInt8.toNat_ofNat', hmask, Nat.shiftRight_eq_div_pow, UInt16.toNat_toUInt8,
      UInt16.toNat_shiftRight, UInt16.toNat_ofNat', Nat.shiftRight_eq_div_pow]
    show payload.length / 256 % 256 % 256 = payload.length % 65536 / 256 % 256
    omega
  have hlow : UInt8.ofNat (payload.length &&& 0xff) = payload.length.toUInt16.toUInt8 := by
    apply UInt8.toNat.inj
    rw [UInt8.toNat_ofNat', hmask, UInt16.toNat_toUInt8, UInt16.toNat_ofNat']
    omega
  rw [encodeMessage, encodeVarint_eq h, hhigh, hlow]
  rfl

/-- A frame is a type, the two bytes of a length, and a payload of that length. -/
structure IsFrame (msgType : Bytes) (payload rest frame : Bytes) : Prop where
  isCode : IsCode msgType
  splits : ∃ high low : UInt8, high.toNat * 256 + low.toNat = payload.length ∧
    frame = msgType ++ (high :: low :: (payload ++ rest))

theorem byteAt_append (before : Bytes) (byte : UInt8) (rest : Bytes) :
    byteAt (before ++ byte :: rest) before.length = byte.toNat := by
  simp [byteAt]

theorem slice_append (before tail : Bytes) (n : Nat) :
    slice (before ++ tail) before.length (before.length + n) = tail.take n := by
  rw [slice, List.take_length_add_append, List.drop_left]

/-- A slice of a buffer that is cut off behind it. -/
theorem slice_take {buf : Bytes} {start stop end_ : Nat} (h : stop ≤ end_) :
    slice (buf.take end_) start stop = slice buf start stop := by
  rw [slice, slice, List.take_take, Nat.min_eq_left h]

/-- The word stands at a position of a payload. -/
def StandsAt (w payload : Bytes) (pos : Nat) : Prop :=
  ∃ before rest, payload = before ++ (w ++ rest) ∧ before.length = pos

theorem StandsAt.decodeVarint_iff {w payload : Bytes} {pos : Nat} (h : StandsAt w payload pos)
    (hw : IsCode w) {end_ value bytesRead : Nat} :
    decodeVarint (payload.take end_) pos = .ok (value, bytesRead) ↔
      pos + w.length ≤ end_ ∧ value = numberOf w ∧ bytesRead = w.length := by
  obtain ⟨before, rest, rfl, rfl⟩ := h
  exact decodeVarint_take_iff hw rest

theorem StandsAt.decodeVarint_ok {w payload : Bytes} {pos end_ : Nat} (h : StandsAt w payload pos)
    (hw : IsCode w) (hend : pos + w.length ≤ end_) :
    decodeVarint (payload.take end_) pos = .ok (numberOf w, w.length) :=
  (h.decodeVarint_iff hw).mpr ⟨hend, rfl, rfl⟩

theorem StandsAt.slice {w payload : Bytes} {pos : Nat} (h : StandsAt w payload pos) {end_ : Nat}
    (hend : pos + w.length ≤ end_) : slice (payload.take end_) pos (pos + w.length) = w := by
  obtain ⟨before, rest, rfl, rfl⟩ := h
  rw [slice_take hend, slice_append, List.take_left]

theorem shiftLeft_or (high low : UInt8) :
    high.toNat <<< 8 ||| low.toNat = high.toNat * 256 + low.toNat := by
  rw [Nat.shiftLeft_eq, Nat.mul_comm]
  exact (Nat.two_pow_add_eq_or_of_lt low.toNat_lt _).symm

/-- What is read of the length field, and the bytes behind it. -/
theorem lengthField (w : Bytes) (high low : UInt8) (tail : Bytes) :
    byteAt (w ++ high :: low :: tail) w.length <<< 8 |||
        byteAt (w ++ high :: low :: tail) (w.length + 1) = high.toNat * 256 + low.toNat ∧
      ∀ n, slice (w ++ high :: low :: tail) (w.length + 2) (w.length + 2 + n) = tail.take n := by
  have hsecond : byteAt (w ++ high :: low :: tail) (w.length + 1) = low.toNat := by
    simpa using byteAt_append (w ++ [high]) low tail
  refine ⟨?_, fun n => ?_⟩
  · rw [byteAt_append, hsecond, shiftLeft_or]
  · simpa using slice_append (w ++ [high, low]) tail n

theorem decodeMessage_iff {frame payload : Bytes} {msgType bytesRead : Nat} :
    decodeMessage frame 0 = .ok (msgType, payload, bytesRead) ↔
      ∃ w rest, IsFrame w payload rest frame ∧ numberOf w = msgType ∧
        bytesRead = w.length + 2 + payload.length := by
  simp only [decodeMessage, ok_bind, ok_ensure, ok_pure, decide_eq_true_eq, Prod.mk.injEq,
    Prod.exists, Nat.zero_add]
  constructor
  · rintro ⟨_, _, hvarint, -, htwo, -, hfits, rfl, hpayload, rfl⟩
    obtain ⟨w, tail, rfl, hw, rfl, rfl⟩ := decodeVarint_ok [] hvarint
    obtain ⟨high, low, rest, rfl⟩ : ∃ high low rest, tail = high :: low :: rest := by
      rcases tail with _ | ⟨high, _ | ⟨low, rest⟩⟩
      · simp at htwo
      · simp at htwo
      · exact ⟨high, low, rest, rfl⟩
    obtain ⟨hlength, hslice⟩ := lengthField w high low rest
    rw [hlength] at hfits hpayload ⊢
    rw [hslice] at hpayload
    subst hpayload
    simp only [List.length_append, List.length_cons] at hfits
    have hle : high.toNat * 256 + low.toNat ≤ rest.length := by omega
    have htake := List.length_take_of_le hle
    refine ⟨w, rest.drop (high.toNat * 256 + low.toNat), ⟨hw, high, low, htake.symm, ?_⟩, rfl, ?_⟩
    · rw [List.take_append_drop]
    · rw [htake]
  · rintro ⟨w, rest, ⟨hw, high, low, hlen, rfl⟩, rfl, rfl⟩
    obtain ⟨hlength, hslice⟩ := lengthField w high low (payload ++ rest)
    refine ⟨_, _, decodeVarint_code hw [] _, ?_⟩
    rw [hlength, hlen, hslice, List.take_left]
    refine ⟨(), ?_, (), ?_, rfl, rfl, rfl⟩
    all_goals
      simp only [List.length_append, List.length_cons]
      omega

theorem expectMessage_iff {expected : Nat} {name : String} {frame payload : Bytes} :
    expectMessage expected name frame = .ok payload ↔
      ∃ w rest, IsFrame w payload rest frame ∧ numberOf w = expected := by
  simp only [expectMessage, ok_bind, ok_ensure, ok_pure, Prod.exists, decodeMessage_iff,
    beq_iff_eq]
  constructor
  · rintro ⟨_, _, _, ⟨w, rest, hframe, rfl, -⟩, -, htype, rfl⟩
    exact ⟨w, rest, hframe, htype⟩
  · rintro ⟨w, rest, hframe, htype⟩
    exact ⟨_, _, _, ⟨w, rest, hframe, rfl, rfl⟩, (), htype, rfl⟩

/-- Of a frame of the relay the browser takes as much as the 16-bit length says. -/
theorem expectMessage_encode {msgType : UInt64} (h : Readable msgType) (name : String)
    (payload : Bytes) :
    expectMessage msgType.toNat name (Wire.encodeMessage msgType payload) =
      .ok (payload.take (payload.length % 65536)) := by
  have hlen := Wire.bigEndian_lengthBytes payload.length
  simp only [Wire.lengthBytes, Wire.bigEndian, List.foldl_cons, List.foldl_nil, Nat.zero_mul,
    Nat.zero_add] at hlen
  rw [← List.length_take_of_le (Nat.mod_le payload.length 65536)] at hlen
  refine expectMessage_iff.mpr ⟨Wire.encodeVarint msgType, payload.drop (payload.length % 65536),
    ⟨isCode_encode msgType, _, _, hlen, ?_⟩, numberOf_encode_iff.mpr h⟩
  rw [List.take_append_drop, Wire.encodeMessage_eq, List.append_assoc]
  rfl

/-! ### Track namespaces -/

structure TrackNamespace where
  fields : List Bytes
deriving DecidableEq, Repr

/-- A byte string behind its length. -/
def encodeBlock (bytes : Bytes) : Bytes := encodeVarint bytes.length ++ bytes

def encodeTrackNamespace (ns : TrackNamespace) : Bytes :=
  encodeVarint ns.fields.length ++ ns.fields.flatMap encodeBlock

/-- The loop of `decodeTrackNamespace`, and the position behind the fields. -/
def decodeNamespaceFields (buf : Bytes) : (count pos : Nat) → Outcome (List Bytes × Nat)
  | 0, pos => return ([], pos)
  | count + 1, pos => do
    let (fieldLen, fieldLenBytes) ← decodeVarint buf pos
    let pos := pos + fieldLenBytes
    Outcome.ensure (pos + fieldLen ≤ buf.length) "track_namespace: truncated field"
    let (fields, stop) ← decodeNamespaceFields buf count (pos + fieldLen)
    return (slice buf pos (pos + fieldLen) :: fields, stop)

def decodeTrackNamespace (buf : Bytes) (offset : Nat) : Outcome (TrackNamespace × Nat) := do
  let (count, countLen) ← decodeVarint buf offset
  let (fields, pos) ← decodeNamespaceFields buf count (offset + countLen)
  return (⟨fields⟩, pos - offset)

/-- A length of this size is written and read as it is. -/
theorem encodeVarint_of_lt {n : Nat} (h : n < 2 ^ 42) :
    encodeVarint n = Wire.encodeVarint n.toUInt64 ∧ IsCode (encodeVarint n) ∧
      numberOf (encodeVarint n) = n := by
  have hnat : n.toUInt64.toNat = n := UInt64.toNat_ofNat_of_lt' (by show n < 2 ^ 64; omega)
  have heq := encodeVarint_eq (v := n.toUInt64) (by omega)
  rw [hnat] at heq
  have hnumber := numberOf_encode_iff.mpr (show Readable n.toUInt64 from .inl (by omega))
  rw [hnat] at hnumber
  rw [heq]
  exact ⟨rfl, isCode_encode _, hnumber⟩

theorem length_encodeBlock (bytes : Bytes) :
    (encodeBlock bytes).length = (encodeVarint bytes.length).length + bytes.length :=
  List.length_append

/-- The fields in a buffer that may be cut off are read if they are there as a whole. -/
theorem decodeNamespaceFields_take_iff {fields : List Bytes} {before : Bytes}
    (hsmall : ∀ field ∈ fields, field.length < 2 ^ 42) (rest : Bytes) {end_ : Nat}
    (hend : before.length ≤ end_) {read : List Bytes} {pos : Nat} :
    decodeNamespaceFields ((before ++ (fields.flatMap encodeBlock ++ rest)).take end_)
        fields.length before.length = .ok (read, pos) ↔
      before.length + (fields.flatMap encodeBlock).length ≤ end_ ∧ read = fields ∧
        pos = before.length + (fields.flatMap encodeBlock).length := by
  induction fields generalizing before read pos with
  | nil =>
    simp only [List.flatMap_nil, List.length_nil, Nat.add_zero, decodeNamespaceFields, ok_pure,
      Prod.mk.injEq]
    constructor
    · rintro ⟨rfl, rfl⟩
      exact ⟨hend, rfl, rfl⟩
    · rintro ⟨-, rfl, rfl⟩
      exact ⟨rfl, rfl⟩
  | cons field fields ih =>
    obtain ⟨-, hcode, hnumber⟩ := encodeVarint_of_lt (hsmall field List.mem_cons_self)
    have hothers : ∀ other ∈ fields, other.length < 2 ^ 42 :=
      fun other h => hsmall other (List.mem_cons_of_mem _ h)
    generalize hw : encodeVarint field.length = w at hcode hnumber
    have hbuf : before ++ ((field :: fields).flatMap encodeBlock ++ rest) =
        before ++ (w ++ (field ++ (fields.flatMap encodeBlock ++ rest))) := by
      simp only [List.flatMap_cons, encodeBlock, hw, List.append_assoc]
    have hsize : ((field :: fields).flatMap encodeBlock).length =
        w.length + field.length + (fields.flatMap encodeBlock).length := by
      simp only [List.flatMap_cons, List.length_append, length_encodeBlock, hw]
    -- the buffer, seen from the field and from what is behind it
    have hfield : before ++ (w ++ (field ++ (fields.flatMap encodeBlock ++ rest))) =
        (before ++ w) ++ (field ++ (fields.flatMap encodeBlock ++ rest)) := by
      simp only [List.append_assoc]
    have hnext : before ++ (w ++ (field ++ (fields.flatMap encodeBlock ++ rest))) =
        (before ++ w ++ field) ++ (fields.flatMap encodeBlock ++ rest) := by
      simp only [List.append_assoc]
    have hstop : (before ++ w ++ field).length = before.length + w.length + field.length := by
      simp only [List.length_append]
    have hread : ∀ {stop}, before.length + w.length + field.length ≤ stop →
        slice ((before ++ (w ++ (field ++ (fields.flatMap encodeBlock ++ rest)))).take stop)
          (before.length + w.length) (before.length + w.length + field.length) = field := by
      intro stop hstop
      rw [slice_take hstop, hfield, ← List.length_append, slice_append, List.take_left]
    rw [hbuf, hsize]
    simp only [List.length_cons, decodeNamespaceFields, ok_bind, ok_ensure, ok_pure,
      decide_eq_true_eq, Prod.exists, Prod.mk.injEq, decodeVarint_take_iff hcode]
    constructor
    · rintro ⟨_, _, ⟨-, rfl, rfl⟩, -, hroom, read', pos', hloop, rfl, rfl⟩
      rw [hnumber] at hroom hloop ⊢
      rw [List.length_take] at hroom
      have hfits : before.length + w.length + field.length ≤ end_ := by omega
      rw [hnext, ← hstop] at hloop
      obtain ⟨hle, rfl, rfl⟩ := (ih hothers (by rw [hstop]; exact hfits)).mp hloop
      rw [hstop] at hle ⊢
      exact ⟨by omega, by rw [hread hfits], by omega⟩
    · rintro ⟨hle, rfl, rfl⟩
      refine ⟨_, _, ⟨by omega, rfl, rfl⟩, (), ?_, fields, _, ?_, ?_, rfl⟩
      · rw [hnumber, List.length_take]
        simp only [List.length_append]
        omega
      · rw [hnumber, hnext, ← hstop]
        refine (ih hothers (by rw [hstop]; omega)).mpr ⟨?_, rfl, ?_⟩
        · rw [hstop]
          omega
        · rw [hstop]
          omega
      · rw [hnumber, hread (by omega)]

theorem decodeTrackNamespace_take_iff {ns : TrackNamespace} {before : Bytes}
    (hcount : ns.fields.length < 2 ^ 42) (hsmall : ∀ field ∈ ns.fields, field.length < 2 ^ 42)
    (rest : Bytes) {end_ : Nat} {read : TrackNamespace} {bytesRead : Nat} :
    decodeTrackNamespace ((before ++ (encodeTrackNamespace ns ++ rest)).take end_) before.length =
        .ok (read, bytesRead) ↔
      before.length + (encodeTrackNamespace ns).length ≤ end_ ∧ read = ns ∧
        bytesRead = (encodeTrackNamespace ns).length := by
  obtain ⟨-, hcode, hnumber⟩ := encodeVarint_of_lt hcount
  unfold encodeTrackNamespace
  generalize encodeVarint ns.fields.length = w at hcode hnumber
  have hbuf : before ++ (w ++ ns.fields.flatMap encodeBlock ++ rest) =
      before ++ (w ++ (ns.fields.flatMap encodeBlock ++ rest)) := by
    simp only [List.append_assoc]
  have hnext : before ++ (w ++ (ns.fields.flatMap encodeBlock ++ rest)) =
      (before ++ w) ++ (ns.fields.flatMap encodeBlock ++ rest) := by
    simp only [List.append_assoc]
  rw [hbuf]
  simp only [decodeTrackNamespace, ok_bind, ok_pure, Prod.exists, Prod.mk.injEq,
    decodeVarint_take_iff hcode, List.length_append]
  constructor
  · rintro ⟨_, _, ⟨hle, rfl, rfl⟩, fields, pos, hloop, rfl, rfl⟩
    rw [hnumber, hnext, ← List.length_append] at hloop
    rw [← List.length_append] at hle
    obtain ⟨hfits, rfl, rfl⟩ := (decodeNamespaceFields_take_iff hsmall rest hle).mp hloop
    rw [List.length_append] at hfits ⊢
    exact ⟨by omega, rfl, by omega⟩
  · rintro ⟨hle, rfl, rfl⟩
    refine ⟨_, _, ⟨by omega, rfl, rfl⟩, read.fields,
      before.length + w.length + (read.fields.flatMap encodeBlock).length, ?_, rfl, ?_⟩
    · rw [hnumber, hnext, ← List.length_append]
      exact (decodeNamespaceFields_take_iff hsmall rest (by rw [List.length_append]; omega)).mpr
        ⟨by rw [List.length_append]; omega, rfl, by rw [List.length_append]⟩
    · omega

/-- The fields that are read are parts of the buffer. -/
theorem length_of_decodeNamespaceFields {buf : Bytes} {count pos stop : Nat} {fields : List Bytes}
    (h : decodeNamespaceFields buf count pos = .ok (fields, stop)) :
    fields.length = count ∧ ∀ field ∈ fields, field.length ≤ buf.length := by
  induction count generalizing pos fields with
  | zero =>
    simp only [decodeNamespaceFields, ok_pure, Prod.mk.injEq] at h
    obtain ⟨rfl, -⟩ := h
    simp
  | succ count ih =>
    simp only [decodeNamespaceFields, ok_bind, ok_ensure, ok_pure, Prod.exists,
      Prod.mk.injEq] at h
    obtain ⟨len, n, -, -, -, fields, stop, hloop, rfl, rfl⟩ := h
    obtain ⟨hcount, hfields⟩ := ih hloop
    refine ⟨by simp [hcount], fun field hmem => ?_⟩
    rcases List.mem_cons.mp hmem with rfl | hmem
    · simp only [slice, List.length_drop, List.length_take]
      omega
    · exact hfields field hmem

/-! ### Parameters -/

def PARAM_AUTHORIZATION : Nat := 0x02
def PARAM_SUBSCRIPTION_FILTER : Nat := 0x04
def PARAM_LARGEST_OBJECT : Nat := 0x05
def PARAM_FORWARD : Nat := 0x06

def FILTER_NEXT_GROUP_START : Nat := 0x02

/-- `number | Uint8Array` -/
inductive Value where
  | number (value : Nat)
  | bytes (value : Bytes)
deriving DecidableEq, Repr

structure MessageParameter where
  typeId : Nat
  value : Value
deriving DecidableEq, Repr

def subscriptionFilterNextGroupStart : MessageParameter :=
  ⟨PARAM_SUBSCRIPTION_FILTER, .number FILTER_NEXT_GROUP_START⟩

def encodeParameterValue : Value → Bytes
  | .number value => encodeVarint value
  | .bytes value => encodeBlock value

/-- The loop of `encodeParameters`.  The difference of two types may be negative. -/
def encodeParametersFrom : (prevType : Nat) → List MessageParameter → Bytes
  | _, [] => []
  | prevType, param :: params =>
    let delta : Int := param.typeId - prevType
    encodeVarint delta ++ encodeParameterValue param.value ++
      encodeParametersFrom param.typeId params

def encodeParameters (params : List MessageParameter) : Bytes :=
  encodeVarint params.length ++ encodeParametersFrom 0 params

/-- The value of a parameter, or nothing for a type that is skipped, and the position behind it. -/
def decodeParameterValue (buf : Bytes) (pos typeId : Nat) :
    Outcome (Option Value × Nat) := do
  if typeId == PARAM_SUBSCRIPTION_FILTER || typeId == PARAM_LARGEST_OBJECT ||
      typeId == PARAM_FORWARD then
    let (value, valLen) ← decodeVarint buf pos
    return (some (.number value), pos + valLen)
  else if typeId == PARAM_AUTHORIZATION then
    let (len, lenBytes) ← decodeVarint buf pos
    let pos := pos + lenBytes
    return (some (.bytes (slice buf pos (pos + len))), pos + len)
  else
    let (len, lenBytes) ← decodeVarint buf pos
    return (none, pos + lenBytes + len)

/-- The loop of `decodeParameters`, and the position behind the parameters. -/
def decodeParametersFrom (buf : Bytes) :
    (count pos prevType : Nat) → Outcome (List MessageParameter × Nat)
  | 0, pos, _ => return ([], pos)
  | count + 1, pos, prevType => do
    let (delta, deltaLen) ← decodeVarint buf pos
    let typeId := Double.add prevType delta
    let (value, pos) ← decodeParameterValue buf (pos + deltaLen) typeId
    let (params, stop) ← decodeParametersFrom buf count pos typeId
    return ((value.map (⟨typeId, ·⟩)).toList ++ params, stop)

def decodeParameters (buf : Bytes) (offset : Nat) : Outcome (List MessageParameter × Nat) := do
  let (count, countLen) ← decodeVarint buf offset
  let (params, pos) ← decodeParametersFrom buf count (offset + countLen) 0
  return (params, pos - offset)

/-- A type that is none of those of the module is skipped. -/
theorem decodeParameterValue_none {buf : Bytes} {pos typeId stop : Nat}
    {value : Option Value} (htype : 2 ^ 3 ≤ typeId)
    (h : decodeParameterValue buf pos typeId = .ok (value, stop)) : value = none := by
  have hne {t : Nat} (ht : t < 2 ^ 3) : (typeId == t) = false := beq_eq_false_iff_ne.mpr (by omega)
  rw [decodeParameterValue, hne (t := PARAM_SUBSCRIPTION_FILTER) (by decide),
    hne (t := PARAM_LARGEST_OBJECT) (by decide), hne (t := PARAM_FORWARD) (by decide),
    hne (t := PARAM_AUTHORIZATION) (by decide)] at h
  simp only [Bool.or_self, Bool.false_eq_true, if_false, ok_bind, ok_pure, Prod.exists,
    Prod.mk.injEq] at h
  obtain ⟨_, _, -, rfl, -⟩ := h
  rfl

/-- Behind a type that is no less than 8 there are only types that are skipped. -/
theorem decodeParametersFrom_skips {buf : Bytes} {count pos prevType stop : Nat}
    {params : List MessageParameter} (hprev : 2 ^ 3 ≤ prevType)
    (h : decodeParametersFrom buf count pos prevType = .ok (params, stop)) : params = [] := by
  induction count generalizing pos prevType params with
  | zero =>
    simp only [decodeParametersFrom, ok_pure, Prod.mk.injEq] at h
    exact h.1.symm
  | succ count ih =>
    simp only [decodeParametersFrom, ok_bind, ok_pure, Prod.exists, Prod.mk.injEq] at h
    obtain ⟨delta, _, -, value, next, hvalue, others, stop, hloop, rfl, rfl⟩ := h
    have htype : 2 ^ 3 ≤ Double.add prevType delta :=
      Double.two_pow_le_round (Nat.le_add_right_of_le hprev)
    rw [ih htype hloop, decodeParameterValue_none htype hvalue]
    rfl

/-! ### SUBSCRIBE -/

structure SubscribeMessage where
  requestId : Nat
  requiredRequestIdDelta : Nat
  trackNamespace : TrackNamespace
  trackName : Bytes
  parameters : List MessageParameter
deriving DecidableEq, Repr

/-- The payload that `encodeSubscribe` builds. -/
def SubscribeMessage.payload (msg : SubscribeMessage) : Bytes :=
  encodeVarint msg.requestId ++ encodeVarint msg.requiredRequestIdDelta ++
    encodeTrackNamespace msg.trackNamespace ++ encodeBlock msg.trackName ++
    encodeParameters msg.parameters

def encodeSubscribe (msg : SubscribeMessage) : Bytes := encodeMessage MSG_SUBSCRIBE msg.payload

def decodeSubscribe (frame : Bytes) : Outcome SubscribeMessage := do
  let payload ← expectMessage MSG_SUBSCRIBE "SUBSCRIBE" frame
  let pos := 0
  let (requestId, r1) ← decodeVarint payload pos
  let pos := pos + r1
  let (requiredRequestIdDelta, r2) ← decodeVarint payload pos
  let pos := pos + r2
  let (trackNamespace, r3) ← decodeTrackNamespace payload pos
  let pos := pos + r3
  let (nameLen, r4) ← decodeVarint payload pos
  let pos := pos + r4
  let trackName := slice payload pos (pos + nameLen)
  let pos := pos + nameLen
  let (parameters, _) ← decodeParameters payload pos
  return { requestId, requiredRequestIdDelta, trackNamespace, trackName, parameters }

/-! ### SUBSCRIBE_OK -/

structure SubscribeOkMessage where
  trackAlias : Nat
  parameters : List MessageParameter
  trackPropertiesRaw : Bytes
deriving DecidableEq, Repr

def decodeSubscribeOk (frame : Bytes) : Outcome SubscribeOkMessage := do
  let payload ← expectMessage MSG_SUBSCRIBE_OK "SUBSCRIBE_OK" frame
  let pos := 0
  let (trackAlias, r1) ← decodeVarint payload pos
  let pos := pos + r1
  let (parameters, r2) ← decodeParameters payload pos
  let pos := pos + r2
  let (propsLen, r3) ← decodeVarint payload pos
  let pos := pos + r3
  let trackPropertiesRaw := slice payload pos (pos + propsLen)
  return { trackAlias, parameters, trackPropertiesRaw }

end Moqt.Web
