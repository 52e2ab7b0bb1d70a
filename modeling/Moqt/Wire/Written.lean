import Moqt.Library.Codec
import Moqt.Wire.ParameterTypes

/-! What the encoders of the fields write: how many bytes it is, and that the decoders take it. -/

namespace Moqt.Wire

open Library Decoder

/-! ### Sizes -/

/-- The bytes of the shortest encoding of a value. -/
def varintSize (value : UInt64) : Nat :=
  if value ≤ 0x7f then 1
  else if value ≤ 0x3fff then 2
  else if value ≤ 0x1fffff then 3
  else if value ≤ 0x0fffffff then 4
  else if value ≤ 0x07ffffffff then 5
  else if value ≤ 0x03ffffffffff then 6
  else if value ≤ 0x00ffffffffffffff then 8
  else 9

@[simp] theorem length_encodeVarint (value : UInt64) :
    (encodeVarint value).length = varintSize value := by
  unfold encodeVarint varintSize
  repeat' split
  all_goals rfl

theorem varintSize_pos (value : UInt64) : 1 ≤ varintSize value := by
  unfold varintSize
  repeat' split
  all_goals decide

/-- The bytes of a byte string behind its length. -/
def blockSize (bytes : Bytes) : Nat := varintSize bytes.length.toUInt64 + bytes.length

def namespaceSize (ns : TrackNamespace) : Nat :=
  varintSize ns.fields.length.toUInt64 + (ns.fields.map blockSize).sum

/-- The bytes of a parameter's value; a filter is a length and the type of NextGroupStart. -/
def parameterValueSize : MessageParameter → Nat
  | .subscriptionFilter _ => 2
  | .largestObject group object => varintSize group + varintSize object
  | .forward _ => 1

def parametersSizeFrom : (prevType : UInt64) → List MessageParameter → Nat
  | _, [] => 0
  | prevType, param :: params =>
    varintSize (paramTypeId param - prevType) + parameterValueSize param +
      parametersSizeFrom (paramTypeId param) params

def parametersSize (params : List MessageParameter) : Nat :=
  varintSize params.length.toUInt64 + parametersSizeFrom 0 params

def kvValueSize : KvValue → Nat
  | .varint value => varintSize value
  | .bytes value => blockSize value

def keyValuePairsSizeFrom : (prevType : UInt64) → List KeyValuePair → Nat
  | _, [] => 0
  | prevType, pair :: pairs =>
    varintSize (pair.typeId - prevType) + kvValueSize pair.value +
      keyValuePairsSizeFrom pair.typeId pairs

def keyValuePairsSize (pairs : List KeyValuePair) : Nat := keyValuePairsSizeFrom 0 pairs

/-! ### Byte strings -/

theorem toNat_length {α : Type} {l : List α} (h : l.length < 2 ^ 64) :
    l.length.toUInt64.toNat = l.length :=
  UInt64.toNat_ofNat_of_lt' h

theorem takes_decodeVarint (value : UInt64) : decodeVarint.Takes (encodeVarint value) value :=
  decodeVarint_encode value

theorem lengthPrefixed_encode {bytes : Bytes} (h : bytes.length < 2 ^ 64) :
    LengthPrefixed bytes (encodeVarint bytes.length.toUInt64 ++ bytes) :=
  ⟨_, _, isVarint_encode _, toNat_length h, rfl⟩

/-! ### Track namespaces -/

theorem encodeNamespaceFields_ok {fields : List Bytes} {w : Bytes}
    (h : encodeNamespaceFields fields = .ok w) :
    (∀ field ∈ fields, field ≠ []) ∧ w.length = (fields.map blockSize).sum := by
  induction fields generalizing w with
  | nil =>
    obtain rfl := Outcome.ok.inj h
    simp
  | cons field fields ih =>
    simp only [encodeNamespaceFields, ok_bind, ok_ensure, ok_pure] at h
    obtain ⟨-, hfield, tail, htail, rfl⟩ := h
    obtain ⟨hfields, hlength⟩ := ih htail
    refine ⟨?_, by simp [hlength, blockSize, Nat.add_assoc]⟩
    intro other hmem
    rcases List.mem_cons.mp hmem with rfl | hmem
    · simpa using hfield
    · exact hfields other hmem

theorem exists_encodeNamespaceFields {fields : List Bytes} (h : ∀ field ∈ fields, field ≠ []) :
    ∃ w, encodeNamespaceFields fields = .ok w := by
  induction fields with
  | nil => exact ⟨[], rfl⟩
  | cons field fields ih =>
    obtain ⟨w, hw⟩ := ih fun other hmem => h other (List.mem_cons_of_mem _ hmem)
    have hfield := h field List.mem_cons_self
    exact ⟨_, ok_bind.mpr ⟨(), by simpa using hfield, ok_bind.mpr ⟨w, hw, rfl⟩⟩⟩

theorem takes_decodeNamespaceField {field : Bytes} (fields : List Bytes) (hne : field ≠ [])
    (hlength : field.length < 2 ^ 64) :
    (decodeNamespaceField fields).Takes (encodeVarint field.length.toUInt64 ++ field)
      (fields ++ [field]) := by
  have hsize := toNat_length hlength
  have hpos : 0 < field.length := List.length_pos_iff.mpr hne
  refine (takes_decodeVarint _).bind (.ensure_bind ?_ ?_)
  · rw [decide_eq_true_eq, UInt64.lt_iff_toNat_lt, hsize]
    exact hpos
  · exact .block_pure hsize.symm

theorem iterates_decodeNamespaceField {fields : List Bytes} {w : Bytes}
    (h : encodeNamespaceFields fields = .ok w) (hlength : w.length < 2 ^ 64)
    (before : List Bytes) :
    Iterates decodeNamespaceField before fields.length w (before ++ fields) := by
  induction fields generalizing w before with
  | nil =>
    obtain rfl := Outcome.ok.inj h
    rw [List.append_nil]
    exact .done before
  | cons field fields ih =>
    simp only [encodeNamespaceFields, ok_bind, ok_ensure, ok_pure] at h
    obtain ⟨-, hfield, tail, htail, rfl⟩ := h
    simp only [List.length_append] at hlength
    have hne : field ≠ [] := by simpa using hfield
    have hbody := takes_decodeNamespaceField before hne (by omega)
    have hrest := ih htail (by omega) (before ++ [field])
    rw [List.append_assoc, List.singleton_append] at hrest
    exact .step hbody hrest

theorem encodeTrackNamespace_ok {ns : TrackNamespace} {w : Bytes}
    (h : encodeTrackNamespace ns = .ok w) : w.length = namespaceSize ns := by
  simp only [encodeTrackNamespace, ok_bind, ok_ensure, ok_pure] at h
  obtain ⟨-, -, fields, hfields, rfl⟩ := h
  simp [(encodeNamespaceFields_ok hfields).2, namespaceSize]

theorem takes_decodeTrackNamespace {ns : TrackNamespace} {w : Bytes}
    (h : encodeTrackNamespace ns = .ok w) (hlength : w.length < 2 ^ 64) :
    decodeTrackNamespace.Takes w ns := by
  simp only [encodeTrackNamespace, ok_bind, ok_ensure, ok_pure] at h
  obtain ⟨-, hmax, fields, hfields, rfl⟩ := h
  simp only [List.length_append] at hlength
  have hloop := (iterates_decodeNamespaceField hfields (by omega) []).forCount
  have hmax' : ns.fields.length.toUInt64.toNat ≤ 32 :=
    UInt64.le_iff_toNat_le.mp (of_decide_eq_true hmax)
  -- a field takes at least a byte, so that the count of the fields fits too
  have hcount : ns.fields.length.toUInt64.toNat = ns.fields.length := by
    refine toNat_length (Nat.lt_of_le_of_lt ?_ (show fields.length < 2 ^ 64 by omega))
    have hmap : (ns.fields.map blockSize).length = ns.fields.length := List.length_map blockSize
    rw [(encodeNamespaceFields_ok hfields).2, ← hmap]
    refine List.length_le_sum_of_one_le _ fun size hsize => ?_
    obtain ⟨field, -, rfl⟩ := List.mem_map.mp hsize
    exact Nat.le_add_right_of_le (varintSize_pos _)
  refine (takes_decodeVarint _).bind (.ensure_bind hmax (.withCapacity_bind ?_ ?_))
  · unfold sizeOfVec isizeMax
    omega
  · rw [hcount]
    simpa using hloop.bind_pure

theorem exists_encodeTrackNamespace {ns : TrackNamespace} (hcount : ns.fields.length ≤ 32)
    (hfields : ∀ field ∈ ns.fields, field ≠ []) : ∃ w, encodeTrackNamespace ns = .ok w := by
  obtain ⟨w, hw⟩ := exists_encodeNamespaceFields hfields
  refine ⟨_, ok_bind.mpr ⟨(), ok_ensure.mpr ?_, ok_bind.mpr ⟨w, hw, rfl⟩⟩⟩
  rw [decide_eq_true_eq, UInt64.le_iff_toNat_le, toNat_length (by omega)]
  exact hcount

/-! ### Parameters -/

/-- The parameters that the encoder accepts: the types do not decrease, and NextGroupStart is the
only filter. -/
structure Encodable (params : List MessageParameter) : Prop where
  sorted : (params.map paramTypeId).Pairwise (· ≤ ·)
  filters : ∀ f, MessageParameter.subscriptionFilter f ∈ params → f = .nextGroupStart

/-- The parameter as one of the ten types. -/
def MessageParameter.toParameter : MessageParameter → Parameter
  | .subscriptionFilter filter => .subscriptionFilter filter
  | .largestObject group object => .largestObject group object
  | .forward value => .forward value

@[simp] theorem typeId_toParameter (p : MessageParameter) :
    p.toParameter.typeId = paramTypeId p := by
  cases p <;> rfl

@[simp] theorem kept_toParameter (p : MessageParameter) : p.toParameter.kept = some p := by
  cases p <;> rfl

theorem encodeParameterValue_ok {p : MessageParameter} {w : Bytes}
    (h : encodeParameterValue p = .ok w) :
    p.toParameter.Value w ∧ w.length = parameterValueSize p ∧
      ∀ f, p = .subscriptionFilter f → f = .nextGroupStart := by
  cases p with
  | subscriptionFilter filter =>
    cases filter with
    | nextGroupStart =>
      obtain rfl := Outcome.ok.inj h
      refine ⟨⟨[1], ?_, lengthPrefixed_encode (by decide)⟩, rfl, by simp⟩
      exact isVarint_encode 0x1
    | largestObject | absoluteStart | absoluteRange => cases h
  | largestObject group object =>
    obtain rfl := Outcome.ok.inj h
    exact ⟨⟨_, _, isVarint_encode _, isVarint_encode _, rfl⟩, by simp [parameterValueSize],
      by simp⟩
  | forward value =>
    obtain rfl := Outcome.ok.inj h
    exact ⟨rfl, rfl, by simp⟩

theorem exists_encodeParameterValue {p : MessageParameter}
    (h : ∀ f, p = .subscriptionFilter f → f = .nextGroupStart) :
    ∃ w, encodeParameterValue p = .ok w := by
  cases p with
  | subscriptionFilter filter =>
    obtain rfl := h filter rfl
    exact ⟨_, rfl⟩
  | largestObject group object => exact ⟨_, rfl⟩
  | forward value => exact ⟨_, rfl⟩

theorem toNat_add_sub {a b : UInt64} (h : a ≤ b) : a.toNat + (b - a).toNat = b.toNat := by
  rw [UInt64.toNat_sub_of_le b a h]
  have := UInt64.le_iff_toNat_le.mp h
  omega

/-- The test that the loops of the encoders make on a type, which is no less than the one before
it. -/
theorem ascending_iff {a b : UInt64} : (decide (a ≤ b) || a == 0) = true ↔ a ≤ b := by
  rw [Bool.or_eq_true, decide_eq_true_eq, beq_iff_eq]
  constructor
  · rintro (h | rfl)
    · exact h
    · exact UInt64.zero_le
  · exact .inl

theorem encodeParametersFrom_ok {prev : UInt64} {params : List MessageParameter} {w : Bytes}
    (h : encodeParametersFrom prev params = .ok w) :
    Serialized prev (params.map MessageParameter.toParameter) w ∧
      w.length = parametersSizeFrom prev params := by
  induction params generalizing prev w with
  | nil =>
    obtain rfl := Outcome.ok.inj h
    exact ⟨.nil prev, rfl⟩
  | cons p ps ih =>
    simp only [encodeParametersFrom, ok_bind, ok_ensure, ok_pure, ascending_iff] at h
    obtain ⟨-, hprev, value, hvalue, tail, htail, rfl⟩ := h
    obtain ⟨hserialized, hlength⟩ := ih htail
    obtain ⟨hp, hsize, -⟩ := encodeParameterValue_ok hvalue
    refine ⟨?_, by simp [hlength, hsize, parametersSizeFrom, Nat.add_assoc]⟩
    rw [List.append_assoc, List.map_cons]
    refine .cons (isVarint_encode _) ?_ hp ?_
    · rw [typeId_toParameter, toNat_add_sub hprev]
    · rwa [typeId_toParameter]

/-- The encoder takes no filter but NextGroupStart. -/
theorem filters_of_encodeParametersFrom {prev : UInt64} {params : List MessageParameter} {w : Bytes}
    (h : encodeParametersFrom prev params = .ok w) (f : SubscriptionFilter)
    (hf : MessageParameter.subscriptionFilter f ∈ params) : f = .nextGroupStart := by
  induction params generalizing prev w with
  | nil => cases hf
  | cons p ps ih =>
    simp only [encodeParametersFrom, ok_bind, ok_ensure] at h
    obtain ⟨-, -, value, hvalue, tail, htail, -⟩ := h
    rcases List.mem_cons.mp hf with heq | hf
    · exact (encodeParameterValue_ok hvalue).2.2 f heq.symm
    · exact ih htail hf

theorem exists_encodeParametersFrom (prev : UInt64) {params : List MessageParameter}
    (hprev : ∀ p ∈ params, prev ≤ paramTypeId p) (h : Encodable params) :
    ∃ w, encodeParametersFrom prev params = .ok w := by
  induction params generalizing prev with
  | nil => exact ⟨[], rfl⟩
  | cons p ps ih =>
    obtain ⟨hsorted, hfilters⟩ := h
    rw [List.map_cons, List.pairwise_cons] at hsorted
    obtain ⟨value, hvalue⟩ := exists_encodeParameterValue (p := p) fun f hf =>
      hfilters f (hf ▸ List.mem_cons_self)
    obtain ⟨tail, htail⟩ := ih (paramTypeId p)
      (fun q hq => hsorted.1 _ (List.mem_map_of_mem hq))
      ⟨hsorted.2, fun f hf => hfilters f (List.mem_cons_of_mem _ hf)⟩
    refine ⟨_, ok_bind.mpr ⟨(), ok_ensure.mpr (ascending_iff.mpr ?_), ok_bind.mpr
      ⟨value, hvalue, ok_bind.mpr ⟨tail, htail, rfl⟩⟩⟩⟩
    exact hprev p List.mem_cons_self

theorem encodeParameters_ok {params : List MessageParameter} {w : Bytes}
    (h : encodeParameters params = .ok w) : w.length = parametersSize params := by
  simp only [encodeParameters, ok_bind, ok_pure] at h
  obtain ⟨body, hbody, rfl⟩ := h
  simp [(encodeParametersFrom_ok hbody).2, parametersSize]

theorem exists_encodeParameters {params : List MessageParameter} (h : Encodable params) :
    ∃ w, encodeParameters params = .ok w := by
  obtain ⟨w, hw⟩ := exists_encodeParametersFrom 0 (fun _ _ => UInt64.zero_le) h
  exact ⟨_, ok_bind.mpr ⟨w, hw, rfl⟩⟩

theorem length_le_parametersSizeFrom (prev : UInt64) (params : List MessageParameter) :
    params.length ≤ parametersSizeFrom prev params := by
  induction params generalizing prev with
  | nil => simp [parametersSizeFrom]
  | cons p ps ih =>
    have hdelta := varintSize_pos (paramTypeId p - prev)
    have hrest := ih (paramTypeId p)
    simp only [parametersSizeFrom, List.length_cons]
    omega

/-- The parameters of a payload are few enough for a vector. -/
theorem takes_decodeParameters {params : List MessageParameter} {w : Bytes}
    (h : encodeParameters params = .ok w) (hlength : w.length < 2 ^ 58) :
    decodeParameters.Takes w params := by
  simp only [encodeParameters, ok_bind, ok_pure] at h
  obtain ⟨body, hbody, rfl⟩ := h
  obtain ⟨hserialized, hsize⟩ := encodeParametersFrom_ok hbody
  have hfew := length_le_parametersSizeFrom 0 params
  rw [← hsize] at hfew
  simp only [List.length_append] at hlength
  have hcount : params.length.toUInt64.toNat = params.length := toNat_length (by omega)
  refine (takes_decodeVarint _).bind (.withCapacity_bind ?_ ?_)
  · unfold sizeOfMessageParameter isizeMax
    omega
  · rw [hcount]
    intro rest
    have hkept : ∀ p ∈ (params.map MessageParameter.toParameter).dropLast, p.kept.isSome := by
      intro p hp
      obtain ⟨q, -, rfl⟩ := List.mem_map.mp (List.mem_of_mem_dropLast hp)
      simp
    obtain ⟨⟨s, hs, hloop⟩, -⟩ := hserialized.read hkept [] 0 rest
    rw [List.length_map] at hloop
    refine returns_bind.mpr ⟨s, rest, hloop, returns_pure.mpr ⟨?_, rfl⟩⟩
    rw [hs, List.nil_append, List.filterMap_map]
    simp

/-! ### Key-value pairs -/

/-- The value is of the kind that the parity of the type asks for. -/
def KeyValuePair.kindFits (pair : KeyValuePair) : Prop :=
  match pair.value with
  | .varint _ => pair.typeId % 2 = 0
  | .bytes _ => pair.typeId % 2 = 1

theorem mod_two_eq (n : UInt64) : n % 2 = 0 ∨ n % 2 = 1 := by
  have h : (n % 2).toNat < 2 := by
    rw [UInt64.toNat_mod]
    exact Nat.mod_lt _ (by decide)
  rcases (show (n % 2).toNat = 0 ∨ (n % 2).toNat = 1 by omega) with h | h
  · exact .inl (UInt64.toNat.inj h)
  · exact .inr (UInt64.toNat.inj h)

theorem encodeKvValue_ok {pair : KeyValuePair} {w : Bytes}
    (h : encodeKvValue pair.typeId pair.value = .ok w) :
    pair.kindFits ∧ w.length = kvValueSize pair.value := by
  unfold KeyValuePair.kindFits
  cases hvalue : pair.value with
  | varint value =>
    simp only [hvalue, encodeKvValue] at h
    split at h
    · cases h
    next hodd =>
      obtain rfl := Outcome.ok.inj h
      exact ⟨(mod_two_eq pair.typeId).resolve_right (by simpa using hodd), by simp [kvValueSize]⟩
  | bytes value =>
    simp only [hvalue, encodeKvValue] at h
    split at h
    · cases h
    next heven =>
      obtain rfl := Outcome.ok.inj h
      exact ⟨(mod_two_eq pair.typeId).resolve_left (by simpa using heven),
        by simp [kvValueSize, blockSize]⟩

theorem exists_encodeKvValue {pair : KeyValuePair} (h : pair.kindFits) :
    ∃ w, encodeKvValue pair.typeId pair.value = .ok w := by
  unfold KeyValuePair.kindFits at h
  cases hvalue : pair.value with
  | varint value | bytes value =>
    simp only [hvalue] at h
    simp [encodeKvValue, h]

/-- A value that is not longer than the decoder allows is taken. -/
theorem takes_decodeKvValue {pair : KeyValuePair} {w : Bytes}
    (h : encodeKvValue pair.typeId pair.value = .ok w) (hlength : w.length ≤ 65535) :
    (decodeKvValue pair.typeId).Takes w pair.value := by
  have hkind := (encodeKvValue_ok h).1
  unfold KeyValuePair.kindFits at hkind
  cases hvalue : pair.value with
  | varint value =>
    simp only [hvalue, encodeKvValue] at h hkind
    obtain rfl : encodeVarint value = w := by simpa [hkind] using h
    simpa [decodeKvValue, hkind] using (takes_decodeVarint value).bind_pure
  | bytes value =>
    simp only [hvalue, encodeKvValue] at h hkind
    obtain rfl : encodeVarint value.length.toUInt64 ++ value = w := by simpa [hkind] using h
    simp only [List.length_append] at hlength
    have hsize := toNat_length (l := value) (by omega)
    have hbytes : decodeKvBytes.Takes (encodeVarint value.length.toUInt64 ++ value) value := by
      refine (takes_decodeVarint _).bind (.ensure_bind ?_ ?_)
      · rw [decide_eq_true_eq, UInt64.le_iff_toNat_le, hsize]
        exact Nat.le_of_add_left_le hlength
      · exact .block_pure (f := id) hsize.symm
    simpa [decodeKvValue, hkind] using hbytes.bind_pure

theorem encodeKeyValuePairsFrom_ok {prev : UInt64} {pairs : List KeyValuePair} {w : Bytes}
    (h : encodeKeyValuePairsFrom prev pairs = .ok w) :
    w.length = keyValuePairsSizeFrom prev pairs := by
  induction pairs generalizing prev w with
  | nil =>
    obtain rfl := Outcome.ok.inj h
    rfl
  | cons pair pairs ih =>
    simp only [encodeKeyValuePairsFrom, ok_bind, ok_ensure, ok_pure] at h
    obtain ⟨-, -, value, hvalue, tail, htail, rfl⟩ := h
    simp [ih htail, (encodeKvValue_ok hvalue).2, keyValuePairsSizeFrom, Nat.add_assoc]

theorem exists_encodeKeyValuePairsFrom (prev : UInt64) {pairs : List KeyValuePair}
    (hprev : ∀ pair ∈ pairs, prev ≤ pair.typeId)
    (hsorted : (pairs.map KeyValuePair.typeId).Pairwise (· ≤ ·))
    (hkinds : ∀ pair ∈ pairs, pair.kindFits) :
    ∃ w, encodeKeyValuePairsFrom prev pairs = .ok w := by
  induction pairs generalizing prev with
  | nil => exact ⟨[], rfl⟩
  | cons pair pairs ih =>
    rw [List.map_cons, List.pairwise_cons] at hsorted
    obtain ⟨value, hvalue⟩ := exists_encodeKvValue (hkinds pair List.mem_cons_self)
    obtain ⟨tail, htail⟩ := ih pair.typeId
      (fun q hq => hsorted.1 _ (List.mem_map_of_mem hq)) hsorted.2
      (fun q hq => hkinds q (List.mem_cons_of_mem _ hq))
    refine ⟨_, ok_bind.mpr ⟨(), ok_ensure.mpr (ascending_iff.mpr ?_), ok_bind.mpr
      ⟨value, hvalue, ok_bind.mpr ⟨tail, htail, rfl⟩⟩⟩⟩
    exact hprev pair List.mem_cons_self

theorem iterates_decodeKeyValuePair {prev : UInt64} {pairs : List KeyValuePair} {w : Bytes}
    (h : encodeKeyValuePairsFrom prev pairs = .ok w) (hlength : w.length ≤ 65535)
    (before : List KeyValuePair) :
    ∃ last, Iterates decodeKeyValuePair (before, prev) pairs.length w (before ++ pairs, last) := by
  induction pairs generalizing prev w before with
  | nil =>
    obtain rfl := Outcome.ok.inj h
    rw [List.append_nil]
    exact ⟨prev, .done _⟩
  | cons pair pairs ih =>
    simp only [encodeKeyValuePairsFrom, ok_bind, ok_ensure, ok_pure, ascending_iff] at h
    obtain ⟨-, hprev, value, hvalue, tail, htail, rfl⟩ := h
    simp only [List.length_append] at hlength
    obtain ⟨last, hrest⟩ := ih htail (by omega) (before ++ [pair])
    rw [List.append_assoc, List.singleton_append] at hrest
    refine ⟨last, .step ?_ hrest⟩
    refine (takes_decodeVarint _).bind fun rest => returns_bind.mpr ⟨pair.typeId, value ++ rest,
      returns_checkedAdd.mpr ⟨?_, ?_, rfl⟩, ?_⟩
    · rw [toNat_add_sub hprev]
      exact pair.typeId.toNat_lt
    · apply UInt64.toNat.inj
      rw [UInt64.toNat_add, toNat_add_sub hprev, Nat.mod_eq_of_lt pair.typeId.toNat_lt]
    · exact (takes_decodeKvValue hvalue (by omega)).bind_pure rest

theorem encodeKeyValuePairs_ok {pairs : List KeyValuePair} {w : Bytes}
    (h : encodeKeyValuePairs pairs = .ok w) : w.length = keyValuePairsSize pairs :=
  encodeKeyValuePairsFrom_ok h

/-- Pairs are read to the end of the slice. -/
theorem returns_decodeKeyValuePairs {pairs : List KeyValuePair} {w : Bytes}
    (h : encodeKeyValuePairs pairs = .ok w) (hlength : w.length ≤ 65535) :
    decodeKeyValuePairs.Returns w pairs [] := by
  obtain ⟨last, hloop⟩ := iterates_decodeKeyValuePair h hlength []
  have hread := hloop.whileNonEmpty fun _ _ _ _ => decodeKeyValuePair_takes
  exact returns_bind.mpr ⟨_, [], hread, returns_pure.mpr ⟨rfl, rfl⟩⟩

/-! ### Reason phrases -/

theorem length_encodeReasonPhrase (rp : ReasonPhrase) :
    (encodeReasonPhrase rp).length = blockSize rp.value := by
  simp [encodeReasonPhrase, blockSize]

/-- The encoder writes every reason phrase; the decoder takes those of at most 1024 bytes. -/
theorem takes_decodeReasonPhrase {rp : ReasonPhrase} (h : rp.value.length ≤ 1024) :
    decodeReasonPhrase.Takes (encodeReasonPhrase rp) rp := by
  have hsize := toNat_length (l := rp.value) (by omega)
  refine (takes_decodeVarint _).bind (.ensure_bind ?_ ?_)
  · rw [decide_eq_true_eq, UInt64.le_iff_toNat_le, hsize]
    exact h
  · exact .block_pure hsize.symm

theorem length_le_of_decodeReasonPhrase {rp rp' : ReasonPhrase} {rest r : Bytes}
    (hlength : rp.value.length < 2 ^ 64)
    (h : decodeReasonPhrase.Returns (encodeReasonPhrase rp ++ rest) rp' r) :
    rp.value.length ≤ 1024 := by
  simp only [decodeReasonPhrase, returns_bind, returns_ensure] at h
  obtain ⟨len, mid, hlen, -, _, ⟨hmax, rfl⟩, -⟩ := h
  rw [encodeReasonPhrase, List.append_assoc] at hlen
  obtain ⟨rfl, -⟩ := (decodeVarint_encode _ _).unique hlen
  rw [decide_eq_true_eq, UInt64.le_iff_toNat_le, toNat_length hlength] at hmax
  exact hmax

end Moqt.Wire
