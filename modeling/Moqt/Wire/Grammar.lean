import Moqt.Wire.Accepted

/-! The words that the decoders of SETUP and PUBLISH_DONE accept, described without the decoders. -/

namespace Moqt.Wire

open Library Decoder

/-- A frame is a type, the two bytes of a length, and a payload of that length. -/
theorem decodeMessage_iff {b payload r : Bytes} {msgType : UInt64} :
    decodeMessage.Returns b (msgType, payload) r ↔
      ∃ w, ∃ high low : UInt8, IsVarint msgType w ∧
        high.toNat * 256 + low.toNat = payload.length ∧
        b = w ++ (high :: low :: (payload ++ r)) := by
  simp only [decodeMessage, returns_bind, returns_ensureLen, returns_slice, returns_advance,
    returns_pure]
  constructor
  · rintro ⟨_, mid, htype, -, _, ⟨htwo, rfl⟩, _, _, ⟨-, rfl, rfl⟩, -, _, ⟨-, rfl⟩, -, _,
      ⟨hle, rfl⟩, _, _, ⟨-, rfl, rfl⟩, -, _, ⟨-, rfl⟩, heq, rfl⟩
    obtain ⟨rfl, rfl⟩ := Prod.mk.inj heq
    obtain ⟨w, hw, rfl⟩ := returns_decodeVarint_iff.mp htype
    obtain ⟨high, low, rest, rfl⟩ : ∃ high low rest, mid = high :: low :: rest := by
      rcases mid with _ | ⟨high, _ | ⟨low, rest⟩⟩
      · simp at htwo
      · simp at htwo
      · exact ⟨high, low, rest, rfl⟩
    refine ⟨w, high, low, hw, ?_, ?_⟩
    · rw [List.length_take_of_le hle]
      simp
    · rw [List.take_append_drop]
      rfl
  · rintro ⟨w, high, low, hw, hlen, rfl⟩
    refine ⟨msgType, _, hw.returns _, (), _, ⟨by simp, rfl⟩, [high, low], _, ⟨by simp, rfl, rfl⟩,
      (), _, ⟨by simp, rfl⟩, (), _, ⟨?_, rfl⟩, payload, _, ⟨?_, ?_, rfl⟩, (), r, ⟨?_, ?_⟩, rfl, rfl⟩
    all_goals simp [hlen]

/-! ### Key-value pairs -/

/-- `b` is the value in the encoding of its type. -/
def KvValue.IsEncoded (typeId : UInt64) : KvValue → Bytes → Prop
  | .varint value, b => typeId % 2 = 0 ∧ IsVarint value b
  | .bytes value, b =>
    typeId % 2 = 1 ∧ value.length ≤ MAX_VALUE_LENGTH.toNat ∧ LengthPrefixed value b

/-- The bytes of pairs after one of type `prev`. -/
inductive Pairs : (prev : UInt64) → Bytes → List KeyValuePair → Prop
  | nil (prev : UInt64) : Pairs prev [] []
  | cons {prev delta : UInt64} {value : KvValue} {pairs : List KeyValuePair} {d v rest : Bytes}
      (hdelta : IsVarint delta d) (hfits : prev.toNat + delta.toNat < 2 ^ 64)
      (hvalue : value.IsEncoded (prev + delta) v) (hrest : Pairs (prev + delta) rest pairs) :
      Pairs prev (d ++ (v ++ rest)) (⟨prev + delta, value⟩ :: pairs)

theorem KvValue.IsEncoded.starts {typeId : UInt64} {value : KvValue} {b : Bytes}
    (h : value.IsEncoded typeId b) : ∃ n w rest, IsVarint n w ∧ b = w ++ rest := by
  cases value with
  | varint n => exact ⟨n, b, [], h.2, (List.append_nil b).symm⟩
  | bytes bytes =>
    obtain ⟨-, -, len, w, hw, -, rfl⟩ := h
    exact ⟨len, w, bytes, hw, rfl⟩

/-- A pair whose type is written as `d`. -/
theorem Pairs.append_iff {prev delta : UInt64} {d behind : Bytes} {pairs : List KeyValuePair}
    (hd : IsVarint delta d) :
    Pairs prev (d ++ behind) pairs ↔ prev.toNat + delta.toNat < 2 ^ 64 ∧
      ∃ value v rest others, value.IsEncoded (prev + delta) v ∧ behind = v ++ rest ∧
        Pairs (prev + delta) rest others ∧ pairs = ⟨prev + delta, value⟩ :: others := by
  constructor
  · intro h
    generalize hb : d ++ behind = b at h
    cases h with
    | nil => exact absurd (List.append_eq_nil_iff.mp hb).1 hd.ne_nil
    | cons hdelta hfits hvalue hrest =>
      obtain ⟨rfl, rfl, rfl⟩ := hd.append_inj hdelta hb
      exact ⟨hfits, _, _, _, _, hvalue, rfl, hrest, rfl⟩
  · rintro ⟨hfits, value, v, rest, others, hvalue, rfl, hrest, rfl⟩
    exact .cons hd hfits hvalue hrest

/-- A pair of an even type. -/
theorem Pairs.varint_iff {prev delta n : UInt64} {d v rest : Bytes} {pairs : List KeyValuePair}
    (hd : IsVarint delta d) (hfits : prev.toNat + delta.toNat < 2 ^ 64)
    (heven : (prev + delta) % 2 = 0) (hv : IsVarint n v) :
    Pairs prev (d ++ (v ++ rest)) pairs ↔ ∃ others, Pairs (prev + delta) rest others ∧
      pairs = ⟨prev + delta, .varint n⟩ :: others := by
  rw [Pairs.append_iff hd]
  constructor
  · rintro ⟨-, value, v', rest', others, hvalue, heq, hrest, rfl⟩
    cases value with
    | varint m =>
      obtain ⟨rfl, rfl, rfl⟩ := hv.append_inj hvalue.2 heq
      exact ⟨others, hrest, rfl⟩
    | bytes bytes =>
      exact absurd (heven.symm.trans hvalue.1) (by decide)
  · rintro ⟨others, hrest, rfl⟩
    exact ⟨hfits, .varint n, v, rest, others, ⟨heven, hv⟩, rfl, hrest, rfl⟩

/-- A pair of an odd type. -/
theorem Pairs.bytes_iff {prev delta len : UInt64} {d l tail : Bytes} {pairs : List KeyValuePair}
    (hd : IsVarint delta d) (hfits : prev.toNat + delta.toNat < 2 ^ 64)
    (hodd : (prev + delta) % 2 = 1) (hl : IsVarint len l) :
    Pairs prev (d ++ (l ++ tail)) pairs ↔ len.toNat ≤ tail.length ∧
      len.toNat ≤ MAX_VALUE_LENGTH.toNat ∧ ∃ others,
        Pairs (prev + delta) (tail.drop len.toNat) others ∧
        pairs = ⟨prev + delta, .bytes (tail.take len.toNat)⟩ :: others := by
  rw [Pairs.append_iff hd]
  constructor
  · rintro ⟨-, value, v', rest', others, hvalue, heq, hrest, rfl⟩
    cases value with
    | varint m =>
      exact absurd (hodd.symm.trans hvalue.1) (by decide)
    | bytes bytes =>
      obtain ⟨-, hmax, len', l', hl', hlen, rfl⟩ := hvalue
      rw [List.append_assoc] at heq
      obtain ⟨rfl, rfl, rfl⟩ := hl.append_inj hl' heq
      rw [hlen, List.take_left, List.drop_left, List.length_append]
      exact ⟨Nat.le_add_right _ _, hmax, others, hrest, rfl⟩
  · rintro ⟨hle, hmax, others, hrest, rfl⟩
    have htake := List.length_take_of_le hle
    refine ⟨hfits, .bytes (tail.take len.toNat), l ++ tail.take len.toNat, tail.drop len.toNat,
      others, ⟨hodd, by rwa [htake], len, l, hl, htake.symm, rfl⟩, ?_, hrest, rfl⟩
    rw [List.append_assoc, List.take_append_drop]

/-- Bytes behind their length, which is checked before they are taken. -/
theorem returns_checkedBlock {α : Type} {check : UInt64 → Bool} (P : Nat → Prop)
    (hcheck : ∀ len, check len = true ↔ P len.toNat) {m : UInt64 → String}
    {m' : UInt64 → Nat → String} {f : Bytes → α} {a : α} {b r : Bytes} :
    (do
      let len ← decodeVarint
      ensure (check len) (m len)
      ensureLen len.toNat (m' len)
      let bytes ← slice len.toNat
      advance len.toNat
      return f bytes : Decoder α).Returns b a r ↔
      ∃ bytes w, P bytes.length ∧ LengthPrefixed bytes w ∧ b = w ++ r ∧ f bytes = a := by
  simp only [returns_bind, returns_ensure, returns_ensureLen, returns_slice, returns_advance,
    returns_pure, returns_decodeVarint_iff, hcheck]
  constructor
  · rintro ⟨len, mid, ⟨c, hc, rfl⟩, -, _, ⟨hP, rfl⟩, -, _, ⟨hle, rfl⟩, _, _, ⟨-, rfl, rfl⟩, -, _,
      ⟨-, rfl⟩, rfl, rfl⟩
    have htake := List.length_take_of_le hle
    refine ⟨_, _, by rwa [htake], ⟨len, c, hc, htake.symm, rfl⟩, ?_, rfl⟩
    rw [List.append_assoc, List.take_append_drop]
  · rintro ⟨bytes, _, hP, ⟨len, c, hc, hlen, rfl⟩, rfl, rfl⟩
    refine ⟨len, _, ⟨c, hc, List.append_assoc _ _ _⟩, (), _, ⟨by rwa [hlen], rfl⟩, (), _, ⟨?_, rfl⟩,
      bytes, _, ⟨?_, ?_, rfl⟩, (), _, ⟨?_, rfl⟩, rfl, ?_⟩
    all_goals simp [hlen]

theorem returns_decodeKvBytes {bytes b r : Bytes} :
    decodeKvBytes.Returns b bytes r ↔
      bytes.length ≤ MAX_VALUE_LENGTH.toNat ∧ ∃ c, LengthPrefixed bytes c ∧ b = c ++ r := by
  have hcheck (len : UInt64) : decide (len ≤ MAX_VALUE_LENGTH) = true ↔
      len.toNat ≤ MAX_VALUE_LENGTH.toNat := by
    rw [decide_eq_true_eq, UInt64.le_iff_toNat_le]
  refine (returns_checkedBlock (· ≤ MAX_VALUE_LENGTH.toNat) hcheck).trans ?_
  constructor
  · rintro ⟨_, c, hmax, hc, rfl, rfl⟩
    exact ⟨hmax, c, hc, rfl⟩
  · rintro ⟨hmax, c, hc, rfl⟩
    exact ⟨bytes, c, hmax, hc, rfl, rfl⟩

theorem returns_decodeKvValue {typeId : UInt64} {value : KvValue} {b r : Bytes} :
    (decodeKvValue typeId).Returns b value r ↔ ∃ v, value.IsEncoded typeId v ∧ b = v ++ r := by
  simp only [decodeKvValue, returns_ite, returns_bind, returns_pure, beq_iff_eq,
    returns_decodeKvBytes, returns_decodeVarint_iff]
  constructor
  · rintro (⟨heven, n, _, ⟨v, hv, rfl⟩, rfl, rfl⟩ | ⟨hodd, bytes, _, ⟨hmax, v, hv, rfl⟩, rfl, rfl⟩)
    · exact ⟨v, ⟨heven, hv⟩, rfl⟩
    · exact ⟨v, ⟨(mod_two_eq typeId).resolve_left hodd, hmax, hv⟩, rfl⟩
  · rintro ⟨v, hvalue, rfl⟩
    cases value with
    | varint n =>
      obtain ⟨heven, hv⟩ := hvalue
      exact .inl ⟨heven, n, r, ⟨v, hv, rfl⟩, rfl, rfl⟩
    | bytes bytes =>
      obtain ⟨hodd, hmax, hv⟩ := hvalue
      refine .inr ⟨?_, bytes, r, ⟨hmax, v, hv, rfl⟩, rfl, rfl⟩
      rw [hodd]
      decide

theorem returns_decodeKeyValuePair {s s' : List KeyValuePair × UInt64} {b r : Bytes} :
    (decodeKeyValuePair s).Returns b s' r ↔
      ∃ delta d value v, IsVarint delta d ∧ s.2.toNat + delta.toNat < 2 ^ 64 ∧
        value.IsEncoded (s.2 + delta) v ∧ b = d ++ (v ++ r) ∧
        s' = (s.1 ++ [⟨s.2 + delta, value⟩], s.2 + delta) := by
  simp only [decodeKeyValuePair, returns_bind, returns_pure, returns_checkedAdd,
    returns_decodeKvValue, returns_decodeVarint_iff]
  constructor
  · rintro ⟨delta, _, ⟨d, hd, rfl⟩, _, _, ⟨hfits, rfl, rfl⟩, value, _, ⟨v, hv, rfl⟩, rfl, rfl⟩
    exact ⟨delta, d, value, v, hd, hfits, hv, rfl, rfl⟩
  · rintro ⟨delta, d, value, v, hd, hfits, hv, rfl, rfl⟩
    exact ⟨delta, _, ⟨d, hd, rfl⟩, _, _, ⟨hfits, rfl, rfl⟩, value, _, ⟨v, hv, rfl⟩, rfl, rfl⟩

theorem pairs_of_whileNonEmpty {fuel done : Nat} {s s' : List KeyValuePair × UInt64} {b r : Bytes}
    (h : (whileNonEmptyFrom decodeKeyValuePair fuel done s).Returns b s' r) :
    ∃ pairs, s'.1 = s.1 ++ pairs ∧ Pairs s.2 b pairs ∧ r = [] := by
  induction fuel generalizing done s b with
  | zero =>
    rcases eq_or_ne b [] with rfl | hb
    · obtain ⟨rfl, rfl⟩ := returns_whileNonEmptyFrom_nil.mp h
      exact ⟨[], (List.append_nil _).symm, .nil _, rfl⟩
    · exact absurd h (returns_whileNonEmptyFrom_zero hb)
  | succ fuel ih =>
    rcases eq_or_ne b [] with rfl | hb
    · obtain ⟨rfl, rfl⟩ := returns_whileNonEmptyFrom_nil.mp h
      exact ⟨[], (List.append_nil _).symm, .nil _, rfl⟩
    · obtain ⟨mid, m, hbody, hrest⟩ := (returns_whileNonEmptyFrom_succ hb).mp h
      obtain ⟨delta, d, value, v, hd, hfits, hv, rfl, rfl⟩ := returns_decodeKeyValuePair.mp hbody
      obtain ⟨pairs, hs, hpairs, rfl⟩ := ih hrest
      refine ⟨⟨s.2 + delta, value⟩ :: pairs, ?_, .cons hd hfits hv hpairs, rfl⟩
      rw [hs, List.append_assoc, List.singleton_append]

theorem Pairs.whileNonEmpty {prev : UInt64} {b : Bytes} {pairs : List KeyValuePair}
    (h : Pairs prev b pairs) (before : List KeyValuePair) {fuel : Nat} (done : Nat)
    (hfuel : b.length ≤ fuel) : ∃ last,
      (whileNonEmptyFrom decodeKeyValuePair fuel done (before, prev)).Returns b
        (before ++ pairs, last) [] := by
  induction h generalizing before fuel done with
  | nil prev => exact ⟨prev, returns_whileNonEmptyFrom_nil.mpr ⟨by simp, rfl⟩⟩
  | @cons prev delta value pairs d v rest hdelta hfits hvalue _ ih =>
    have hpos := List.length_pos_iff.mpr hdelta.ne_nil
    have hne : d ++ (v ++ rest) ≠ [] := by simp [hdelta.ne_nil]
    simp only [List.length_append] at hfuel
    obtain ⟨n, rfl⟩ := Nat.exists_eq_add_of_le' (show 1 ≤ fuel by omega)
    obtain ⟨last, hloop⟩ := ih (before ++ [⟨prev + delta, value⟩]) (done + 1)
      (show rest.length ≤ n by omega)
    rw [List.append_assoc, List.singleton_append] at hloop
    exact ⟨last, (returns_whileNonEmptyFrom_succ hne).mpr
      ⟨_, _, returns_decodeKeyValuePair.mpr ⟨delta, d, value, v, hdelta, hfits, hvalue, rfl, rfl⟩,
        hloop⟩⟩

theorem decodeKeyValuePairs_iff {b r : Bytes} {pairs : List KeyValuePair} :
    decodeKeyValuePairs.Returns b pairs r ↔ Pairs 0 b pairs ∧ r = [] := by
  simp only [decodeKeyValuePairs, returns_bind, returns_pure]
  constructor
  · rintro ⟨s, _, hloop, rfl, rfl⟩
    obtain ⟨pairs, hs, hpairs, rfl⟩ := pairs_of_whileNonEmpty hloop
    rw [hs]
    exact ⟨hpairs, rfl⟩
  · rintro ⟨hpairs, rfl⟩
    obtain ⟨last, hloop⟩ := hpairs.whileNonEmpty [] 0 (Nat.le_refl _)
    exact ⟨_, [], hloop, rfl, rfl⟩

/-! ### Reason phrases -/

theorem returns_decodeReasonPhrase {rp : ReasonPhrase} {b r : Bytes} :
    decodeReasonPhrase.Returns b rp r ↔
      rp.value.length ≤ MAX_LENGTH.toNat ∧ ∃ c, LengthPrefixed rp.value c ∧ b = c ++ r := by
  have hcheck (len : UInt64) : decide (len ≤ MAX_LENGTH) = true ↔
      len.toNat ≤ MAX_LENGTH.toNat := by
    rw [decide_eq_true_eq, UInt64.le_iff_toNat_le]
  refine (returns_checkedBlock (· ≤ MAX_LENGTH.toNat) hcheck).trans ?_
  constructor
  · rintro ⟨value, c, hmax, hc, rfl, rfl⟩
    exact ⟨hmax, c, hc, rfl⟩
  · rintro ⟨hmax, c, hc, rfl⟩
    exact ⟨rp.value, c, hmax, hc, rfl, rfl⟩

end Moqt.Wire
