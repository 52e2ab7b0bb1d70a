import Moqt.Library.Decoder
import Mathlib.Data.List.Induction
import Mathlib.Data.Nat.Digits.Lemmas
import Mathlib.Tactic.Common

/-! Variable-length integers.  The prefix bits of the first byte give the number of bytes; the bits
after them, in big-endian order, give the value. -/

namespace Moqt.Wire

open Library

/-- A byte string: a `Vec<u8>` or a `&[u8]`. -/
abbrev Bytes := List UInt8

/-- `{n:X}` in a format string. -/
def upperHex (n : UInt64) : String := String.ofList ((Nat.toDigits 16 n.toNat).map Char.toUpper)

/-- The bytes that `encode_varint` appends: the fewest that hold `value`. -/
def encodeVarint (value : UInt64) : Bytes :=
  if value ≤ 0x7f then
    [value.toUInt8]
  else if value ≤ 0x3fff then
    [(0x80 : UInt8) ||| (value >>> 8).toUInt8, value.toUInt8]
  else if value ≤ 0x1fffff then
    [(0xc0 : UInt8) ||| (value >>> 16).toUInt8, (value >>> 8).toUInt8, value.toUInt8]
  else if value ≤ 0x0fffffff then
    [(0xe0 : UInt8) ||| (value >>> 24).toUInt8, (value >>> 16).toUInt8, (value >>> 8).toUInt8,
      value.toUInt8]
  else if value ≤ 0x07ffffffff then
    [(0xf0 : UInt8) ||| (value >>> 32).toUInt8, (value >>> 24).toUInt8, (value >>> 16).toUInt8,
      (value >>> 8).toUInt8, value.toUInt8]
  else if value ≤ 0x03ffffffffff then
    [(0xf8 : UInt8) ||| (value >>> 40).toUInt8, (value >>> 32).toUInt8, (value >>> 24).toUInt8,
      (value >>> 16).toUInt8, (value >>> 8).toUInt8, value.toUInt8]
  else if value ≤ 0x00ffffffffffffff then
    -- there is no encoding of 7 bytes
    [0xfe, (value >>> 48).toUInt8, (value >>> 40).toUInt8, (value >>> 32).toUInt8,
      (value >>> 24).toUInt8, (value >>> 16).toUInt8, (value >>> 8).toUInt8, value.toUInt8]
  else
    [0xff, (value >>> 56).toUInt8, (value >>> 48).toUInt8, (value >>> 40).toUInt8,
      (value >>> 32).toUInt8, (value >>> 24).toUInt8, (value >>> 16).toUInt8,
      (value >>> 8).toUInt8, value.toUInt8]

def varintByteLength (firstByte : UInt8) : Outcome Nat :=
  if firstByte &&& 0x80 == 0 then .ok 1
  else if firstByte &&& 0xc0 == 0x80 then .ok 2
  else if firstByte &&& 0xe0 == 0xc0 then .ok 3
  else if firstByte &&& 0xf0 == 0xe0 then .ok 4
  else if firstByte &&& 0xf8 == 0xf0 then .ok 5
  else if firstByte &&& 0xfc == 0xf8 then .ok 6
  else if firstByte == 0xfc then .err "invalid varint code point 0xFC"
  else if firstByte == 0xfe then .ok 8
  else .ok 9

/-- The length and the value mask that the prefix of the first byte stands for. -/
def varintPrefix (first : UInt8) : Decoder (Nat × UInt64) :=
  if first &&& 0x80 == 0 then pure (1, 0x7f)
  else if first &&& 0xc0 == 0x80 then pure (2, 0x3fff)
  else if first &&& 0xe0 == 0xc0 then pure (3, 0x1fffff)
  else if first &&& 0xf0 == 0xe0 then pure (4, 0x0fffffff)
  else if first &&& 0xf8 == 0xf0 then pure (5, 0x07ffffffff)
  else if first &&& 0xfc == 0xf8 then pure (6, 0x03ffffffffff)
  else if first == 0xfc then Decoder.bail "invalid varint code point 0xFC"
  else if first == 0xfe then pure (8, 0x00ffffffffffffff)
  else pure (9, 0xffffffffffffffff)

/-- `decode_varint`.  Encodings that are longer than necessary are accepted. -/
def decodeVarint : Decoder UInt64 := do
  Decoder.ensureLen 1 fun _ => "empty buffer"
  let first ← Decoder.first
  let (len, valueMask) ← varintPrefix first
  Decoder.ensureLen len fun have_ => s!"need {len} bytes, have {have_}"
  let bytes ← Decoder.slice len
  -- the prefix bits stay in the value until the mask strips them
  let value ← Decoder.forEach bytes (0 : UInt64) fun value byte =>
    pure ((value <<< 8) ||| byte.toUInt64)
  Decoder.advance len
  return value &&& valueMask

theorem varintPrefix_local (first : UInt8) : (varintPrefix first).Local := by
  unfold varintPrefix
  repeat' apply Decoder.Local.ite
  all_goals first | exact Decoder.Local.pure _ | exact Decoder.Local.bail _

theorem decodeVarint_local : decodeVarint.Local :=
  (Decoder.Local.ensureLen _ _).bind fun _ => Decoder.Local.first.bind fun first =>
    (varintPrefix_local first).bind fun _ => (Decoder.Local.ensureLen _ _).bind fun _ =>
      (Decoder.Local.slice _).bind fun bytes =>
        (Decoder.Local.forEach (fun _ _ => Decoder.Local.pure _) bytes _).bind fun _ =>
          (Decoder.Local.advance _).bind fun _ => Decoder.Local.pure _

theorem varintPrefix_peeks (first : UInt8) : (varintPrefix first).Peeks := by
  unfold varintPrefix
  repeat' apply Decoder.Peeks.ite
  all_goals first | exact Decoder.Peeks.pure _ | exact Decoder.Peeks.bail _

/-- The prefix stands for at least one byte, and is read without touching the slice. -/
theorem varintPrefix_returns {first : UInt8} {b r : Bytes} {p : Nat × UInt64}
    (h : (varintPrefix first).Returns b p r) : 1 ≤ p.1 ∧ b = r := by
  simp only [varintPrefix, Decoder.returns_ite, Decoder.returns_pure, Decoder.returns_bail] at h
  rcases h with ⟨-, rfl, rfl⟩ | ⟨-, ⟨-, rfl, rfl⟩ | ⟨-, ⟨-, rfl, rfl⟩ | ⟨-, ⟨-, rfl, rfl⟩ |
    ⟨-, ⟨-, rfl, rfl⟩ | ⟨-, ⟨-, rfl, rfl⟩ | ⟨-, ⟨-, h⟩ | ⟨-, ⟨-, rfl, rfl⟩ | ⟨-, rfl, rfl⟩⟩⟩⟩⟩⟩⟩⟩
  all_goals first | exact ⟨by decide, rfl⟩ | exact h.elim

/-- A varint takes at least one byte. -/
theorem decodeVarint_takes {b r : Bytes} {v : UInt64} (h : decodeVarint.Returns b v r) :
    r.length < b.length := by
  simp only [decodeVarint, Decoder.returns_bind, Decoder.returns_ensureLen, Decoder.returns_first,
    Decoder.returns_slice, Decoder.returns_advance, Decoder.returns_pure] at h
  obtain ⟨-, _, ⟨hb, rfl⟩, first, _, ⟨-, rfl⟩, p, _, hp, -, _, ⟨hlen, rfl⟩, bytes, _,
    ⟨-, -, rfl⟩, value, _, hvalue, -, _, ⟨hadv, rfl⟩, -, rfl⟩ := h
  obtain ⟨hp1, rfl⟩ := varintPrefix_returns hp
  rw [Decoder.forEach, Decoder.returns_forEachFrom_pure] at hvalue
  obtain ⟨-, rfl⟩ := hvalue
  simp only [List.length_drop]
  omega

theorem varintPrefix_within {room count : Nat} (first : UInt8) (b : Bytes) :
    (varintPrefix first).Within room count b := by
  unfold varintPrefix
  repeat' apply Decoder.Within.ite <;> intro _
  all_goals first | exact Decoder.Within.pure _ | exact Decoder.Within.bail _

/-- A varint is read without a panic, and the loop over its bytes is no longer than the slice. -/
theorem decodeVarint_within {room count : Nat} {b : Bytes} (hb : b.length ≤ count) :
    decodeVarint.Within room count b := by
  refine (Decoder.Within.ensureLen _ _).bind fun _ r hr _ => ?_
  obtain ⟨hpos, rfl⟩ := Decoder.returns_ensureLen.mp hr
  refine (Decoder.Within.first (by rintro rfl; simp at hpos)).bind fun first r hr _ => ?_
  obtain ⟨-, rfl⟩ := Decoder.returns_first.mp hr
  refine (varintPrefix_within first b).bind fun p r hr _ => ?_
  obtain ⟨-, rfl⟩ := varintPrefix_returns hr
  refine (Decoder.Within.ensureLen _ _).bind fun _ r hr _ => ?_
  obtain ⟨hlen, rfl⟩ := Decoder.returns_ensureLen.mp hr
  refine (Decoder.Within.slice hlen).bind fun bytes r hr _ => ?_
  obtain ⟨-, rfl, rfl⟩ := Decoder.returns_slice.mp hr
  refine (Decoder.Within.forEachFrom (fun _ _ _ _ => Decoder.Within.pure _) _
    (by simp only [List.length_take]; omega)).bind fun value r hr _ => ?_
  obtain ⟨-, rfl⟩ := Decoder.returns_forEachFrom_pure.mp hr
  exact (Decoder.Within.advance hlen).bind fun _ _ _ _ => Decoder.Within.pure _

/-! ### Reading back what was written -/

/-- The number that bytes stand for in big-endian order. -/
def bigEndian (bytes : Bytes) : Nat := bytes.foldl (fun n byte => n * 256 + byte.toNat) 0

/-- One step of the read: the new byte goes below the bytes before it, as in an addition. -/
theorem toNat_shift_or (value : UInt64) (byte : UInt8) :
    ((value <<< 8) ||| byte.toUInt64).toNat = (value.toNat * 256 + byte.toNat) % 2 ^ 64 := by
  have hbyte : byte.toNat < 2 ^ 8 := byte.toNat_lt
  have hshift : (value <<< 8).toNat = 2 ^ 8 * (value.toNat % 2 ^ 56) := by
    rw [UInt64.toNat_shiftLeft, Nat.shiftLeft_eq]
    show value.toNat * 2 ^ 8 % 2 ^ 64 = _
    omega
  rw [UInt64.toNat_or, hshift, UInt8.toNat_toUInt64, ← Nat.two_pow_add_eq_or_of_lt hbyte]
  omega

theorem toNat_foldl_shift_or (bytes : Bytes) :
    (bytes.foldl (fun (value : UInt64) byte => (value <<< 8) ||| byte.toUInt64) 0).toNat =
      bigEndian bytes % 2 ^ 64 := by
  induction bytes using List.reverseRecOn with
  | nil => rfl
  | append_singleton bytes byte ih =>
    simp only [bigEndian, List.foldl_append, List.foldl_cons, List.foldl_nil] at ih ⊢
    rw [toNat_shift_or, ih]
    omega

theorem toNat_and_mask {value mask : UInt64} {k : Nat} (h : mask.toNat = 2 ^ k - 1) :
    (value &&& mask).toNat = value.toNat % 2 ^ k := by
  rw [UInt64.toNat_and, h, Nat.and_two_pow_sub_one_eq_mod]

/-- A first byte whose prefix stands for `len` bytes, with the bytes that it asks for. -/
theorem returns_decodeVarint {first : UInt8} {tail rest : Bytes} {v : UInt64} (len k : Nat)
    (mask : UInt64) (hcode : (varintPrefix first).Returns [] (len, mask) [])
    (hlen : tail.length + 1 = len) (hmask : mask.toNat = 2 ^ k - 1) (hk : k ≤ 64)
    (hvalue : bigEndian (first :: tail) % 2 ^ k = v.toNat) :
    decodeVarint.Returns (first :: tail ++ rest) v rest := by
  subst hlen
  have htake : (first :: tail ++ rest).take (tail.length + 1) = first :: tail := by simp
  have hdrop : (first :: tail ++ rest).drop (tail.length + 1) = rest := by simp
  have hlen : tail.length + 1 ≤ (first :: tail ++ rest).length := by simp
  have hread : (varintPrefix first).Returns (first :: tail ++ rest) (tail.length + 1, mask)
      (first :: tail ++ rest) :=
    varintPrefix_local first [] _ [] _ hcode
  have hv : (first :: tail).foldl (fun (value : UInt64) byte => (value <<< 8) ||| byte.toUInt64) 0
      &&& mask = v := by
    apply UInt64.toNat.inj
    rw [toNat_and_mask hmask, toNat_foldl_shift_or, Nat.mod_mod_of_dvd _ (Nat.pow_dvd_pow 2 hk)]
    exact hvalue
  simp only [decodeVarint, Decoder.returns_bind, Decoder.returns_ensureLen, Decoder.returns_first,
    Decoder.returns_slice, Decoder.returns_advance, Decoder.returns_pure, Decoder.forEach,
    Decoder.returns_forEachFrom_pure]
  exact ⟨(), _, ⟨by simp, rfl⟩, first, _, ⟨rfl, rfl⟩, _, _, hread, (), _, ⟨hlen, rfl⟩, _, _,
    ⟨hlen, htake, rfl⟩, _, _, ⟨rfl, rfl⟩, (), _, ⟨hlen, hdrop⟩, hv, rfl⟩

/-- A first byte that holds the upper bits of the value below its prefix `high`. -/
theorem returns_decodeVarint_or {low : UInt8} {tail rest : Bytes} {v : UInt64} (high : UInt8)
    (len j k : Nat) (mask : UInt64)
    (hcode : ∀ n < 2 ^ j, (varintPrefix (high ||| .ofNat n)).Returns [] (len, mask) [])
    (hlen : tail.length + 1 = len) (hmask : mask.toNat = 2 ^ k - 1) (hk : k ≤ 64)
    (hhigh : high.toNat % 2 ^ j = 0) (hlow : low.toNat < 2 ^ j)
    (hvalue : tail.foldl (fun n byte => n * 256 + byte.toNat) (high.toNat + low.toNat) % 2 ^ k =
      v.toNat) :
    decodeVarint.Returns ((high ||| low) :: tail ++ rest) v rest := by
  have hread := hcode low.toNat hlow
  rw [UInt8.ofNat_toNat] at hread
  have hfirst : (high ||| low).toNat = high.toNat + low.toNat := by
    obtain ⟨a, ha⟩ := Nat.dvd_of_mod_eq_zero hhigh
    rw [UInt8.toNat_or, ha, ← Nat.two_pow_add_eq_or_of_lt hlow]
  refine returns_decodeVarint len k mask hread hlen hmask hk ?_
  rw [← hvalue, ← hfirst, bigEndian, List.foldl_cons, Nat.zero_mul, Nat.zero_add]

/-- A property of all bytes is checked number by number. -/
theorem forall_byte {P : UInt8 → Prop} (h : ∀ n < 256, P (.ofNat n)) (byte : UInt8) : P byte := by
  have hbyte := h byte.toNat byte.toNat_lt
  rwa [UInt8.ofNat_toNat] at hbyte

theorem toNat_shiftRight_byte (v s : UInt64) (hs : s.toNat < 64) :
    (v >>> s).toUInt8.toNat = v.toNat / 2 ^ s.toNat % 256 := by
  rw [UInt64.toNat_toUInt8, UInt64.toNat_shiftRight, Nat.shiftRight_eq_div_pow,
    Nat.mod_eq_of_lt hs]

/-- An encoded value is read back, whatever follows it. -/
theorem decodeVarint_encode (v : UInt64) (rest : Bytes) :
    decodeVarint.Returns (encodeVarint v ++ rest) v rest := by
  have hv := v.toNat_lt
  have h0 : v.toUInt8.toNat = v.toNat % 256 := UInt64.toNat_toUInt8 v
  have h8 := toNat_shiftRight_byte v 8 (by decide)
  have h16 := toNat_shiftRight_byte v 16 (by decide)
  have h24 := toNat_shiftRight_byte v 24 (by decide)
  have h32 := toNat_shiftRight_byte v 32 (by decide)
  have h40 := toNat_shiftRight_byte v 40 (by decide)
  have h48 := toNat_shiftRight_byte v 48 (by decide)
  have h56 := toNat_shiftRight_byte v 56 (by decide)
  simp only [UInt64.reduceToNat] at h8 h16 h24 h32 h40 h48 h56
  simp only [encodeVarint, UInt64.le_iff_toNat_le, UInt64.reduceToNat]
  split
  · rw [← UInt8.zero_or (a := v.toUInt8)]
    refine returns_decodeVarint_or 0 1 7 7 0x7f (by decide) rfl rfl (by omega) rfl (by omega) ?_
    simp only [List.foldl_nil, h0, UInt8.reduceToNat]
    omega
  split
  · refine returns_decodeVarint_or 0x80 2 6 14 0x3fff (by decide) rfl rfl (by omega) rfl
      (by omega) ?_
    simp only [List.foldl_cons, List.foldl_nil, h0, h8, UInt8.reduceToNat]
    omega
  split
  · refine returns_decodeVarint_or 0xc0 3 5 21 0x1fffff (by decide) rfl rfl (by omega) rfl
      (by omega) ?_
    simp only [List.foldl_cons, List.foldl_nil, h0, h8, h16, UInt8.reduceToNat]
    omega
  split
  · refine returns_decodeVarint_or 0xe0 4 4 28 0x0fffffff (by decide) rfl rfl (by omega) rfl
      (by omega) ?_
    simp only [List.foldl_cons, List.foldl_nil, h0, h8, h16, h24, UInt8.reduceToNat]
    omega
  split
  · refine returns_decodeVarint_or 0xf0 5 3 35 0x07ffffffff (by decide) rfl rfl (by omega) rfl
      (by omega) ?_
    simp only [List.foldl_cons, List.foldl_nil, h0, h8, h16, h24, h32, UInt8.reduceToNat]
    omega
  split
  · refine returns_decodeVarint_or 0xf8 6 2 42 0x03ffffffffff (by decide) rfl rfl (by omega) rfl
      (by omega) ?_
    simp only [List.foldl_cons, List.foldl_nil, h0, h8, h16, h24, h32, h40, UInt8.reduceToNat]
    omega
  split
  · refine returns_decodeVarint 8 56 0x00ffffffffffffff (by decide) rfl rfl (by omega) ?_
    simp only [bigEndian, List.foldl_cons, List.foldl_nil, h0, h8, h16, h24, h32, h40, h48,
      UInt8.reduceToNat]
    omega
  · refine returns_decodeVarint 9 64 0xffffffffffffffff (by decide) rfl rfl (by omega) ?_
    simp only [bigEndian, List.foldl_cons, List.foldl_nil, h0, h8, h16, h24, h32, h40, h48, h56,
      UInt8.reduceToNat]
    omega

/-! ### Encodings of a value -/

/-- `b` is an encoding of `v`, not necessarily the shortest. -/
def IsVarint (v : UInt64) (b : Bytes) : Prop := decodeVarint.Returns b v []

instance (v : UInt64) (b : Bytes) : Decidable (IsVarint v b) :=
  inferInstanceAs (Decidable (Decoder.Returns _ _ _ _))

theorem isVarint_encode (v : UInt64) : IsVarint v (encodeVarint v) := by
  simpa [IsVarint] using decodeVarint_encode v []

theorem IsVarint.returns {v : UInt64} {b : Bytes} (h : IsVarint v b) (rest : Bytes) :
    decodeVarint.Returns (b ++ rest) v rest :=
  decodeVarint_local b v [] rest h

theorem varintByteLength_of_prefix {first : UInt8} {b r : Bytes} {p : Nat × UInt64}
    (h : (varintPrefix first).Returns b p r) : varintByteLength first = .ok p.1 := by
  simp only [varintPrefix, Decoder.returns_ite, Decoder.returns_pure, Decoder.returns_bail] at h
  rcases h with ⟨h1, rfl, rfl⟩ | ⟨h1, ⟨h2, rfl, rfl⟩ | ⟨h2, ⟨h3, rfl, rfl⟩ | ⟨h3, ⟨h4, rfl, rfl⟩ |
    ⟨h4, ⟨h5, rfl, rfl⟩ | ⟨h5, ⟨h6, rfl, rfl⟩ | ⟨h6, ⟨-, h⟩ | ⟨h7, ⟨h8, rfl, rfl⟩ |
      ⟨h8, rfl, rfl⟩⟩⟩⟩⟩⟩⟩⟩
  all_goals first | exact h.elim | simp [varintByteLength, *]

/-- The value bits of the encodings that have `n` bytes. -/
def varintBits (n : Nat) : Nat := 8 * (n - 1) + (8 - n)

/-- The two tables agree. -/
theorem varintPrefix_of_byteLength {first : UInt8} {len : Nat}
    (h : varintByteLength first = .ok len) (b : Bytes) :
    ∃ mask : UInt64, (varintPrefix first).Returns b (len, mask) b ∧
      mask.toNat = 2 ^ varintBits len - 1 := by
  simp only [varintPrefix, Decoder.returns_ite, Decoder.returns_pure, Decoder.returns_bail]
  unfold varintByteLength at h
  repeat' split at h
  all_goals first
    | cases h; done
    | obtain rfl := Outcome.ok.inj h
      simp [*, varintBits]

/-- A varint takes the bytes that its first byte stands for. -/
theorem decodeVarint_splits {b r : Bytes} {v : UInt64} (h : decodeVarint.Returns b v r) :
    ∃ first tail len, b = first :: tail ∧ varintByteLength first = .ok len ∧ len ≤ b.length ∧
      b.drop len = r := by
  simp only [decodeVarint, Decoder.returns_bind, Decoder.returns_ensureLen, Decoder.returns_first,
    Decoder.returns_slice, Decoder.returns_advance, Decoder.returns_pure] at h
  obtain ⟨-, _, ⟨hb, rfl⟩, first, _, ⟨hfirst, rfl⟩, p, _, hp, -, _, ⟨hlen, rfl⟩, bytes, _,
    ⟨-, -, rfl⟩, value, _, hvalue, -, _, ⟨hadv, rfl⟩, -, rfl⟩ := h
  have hlength := varintByteLength_of_prefix hp
  obtain ⟨-, rfl⟩ := varintPrefix_returns hp
  rw [Decoder.forEach, Decoder.returns_forEachFrom_pure] at hvalue
  obtain ⟨-, rfl⟩ := hvalue
  obtain ⟨tail, rfl⟩ := List.head?_eq_some_iff.mp hfirst
  exact ⟨first, tail, p.1, rfl, hlength, hlen, rfl⟩

theorem varintByteLength_mem {first : UInt8} {len : Nat} (h : varintByteLength first = .ok len) :
    len ∈ [1, 2, 3, 4, 5, 6, 8, 9] := by
  unfold varintByteLength at h
  repeat' split at h
  all_goals first
    | cases h; done
    | obtain rfl := Outcome.ok.inj h
      decide

theorem varintBits_le {first : UInt8} {len : Nat} (h : varintByteLength first = .ok len) :
    1 ≤ len ∧ varintBits len ≤ 64 := by
  have hall : ∀ len ∈ [1, 2, 3, 4, 5, 6, 8, 9], 1 ≤ len ∧ varintBits len ≤ 64 := by decide
  exact hall len (varintByteLength_mem h)

/-- Bytes that are as many as the first one stands for are a varint. -/
theorem isVarint_of_length {first : UInt8} {tail : Bytes}
    (h : varintByteLength first = .ok (tail.length + 1)) {v : UInt64}
    (hvalue : bigEndian (first :: tail) % 2 ^ varintBits (tail.length + 1) = v.toNat) :
    IsVarint v (first :: tail) := by
  obtain ⟨mask, hprefix, hmask⟩ := varintPrefix_of_byteLength h []
  have hreturns : decodeVarint.Returns (first :: tail ++ []) v [] :=
    returns_decodeVarint _ _ mask hprefix rfl hmask (varintBits_le h).2 hvalue
  simpa [IsVarint] using hreturns

theorem exists_isVarint {first : UInt8} {tail : Bytes}
    (h : varintByteLength first = .ok (tail.length + 1)) : ∃ v, IsVarint v (first :: tail) := by
  have hbits := (varintBits_le h).2
  have hlt : bigEndian (first :: tail) % 2 ^ varintBits (tail.length + 1) < 2 ^ 64 :=
    Nat.lt_of_lt_of_le (Nat.mod_lt _ (Nat.two_pow_pos _))
      (Nat.pow_le_pow_right (by decide) hbits)
  exact ⟨_, isVarint_of_length h (UInt64.toNat_ofNat_of_lt' hlt).symm⟩

theorem IsVarint.length {v : UInt64} {b : Bytes} (h : IsVarint v b) :
    ∃ first tail, b = first :: tail ∧ varintByteLength first = .ok (tail.length + 1) := by
  obtain ⟨first, tail, len, rfl, hlength, hle, hdrop⟩ := decodeVarint_splits h
  have hge := List.drop_eq_nil_iff.mp hdrop
  obtain rfl : len = tail.length + 1 := Nat.le_antisymm hle hge
  exact ⟨first, tail, rfl, hlength⟩

/-- A varint is read from the bytes that encode it, whatever follows them. -/
theorem returns_decodeVarint_iff {b r : Bytes} {v : UInt64} :
    decodeVarint.Returns b v r ↔ ∃ c, IsVarint v c ∧ b = c ++ r := by
  constructor
  · intro h
    obtain ⟨first, tail, len, rfl, hlength, hle, rfl⟩ := decodeVarint_splits h
    obtain ⟨n, rfl⟩ := Nat.exists_eq_add_of_le' (varintBits_le hlength).1
    have htake : (first :: tail).take (n + 1) = first :: tail.take n := rfl
    have hn : (tail.take n).length = n := List.length_take_of_le (by simpa using hle)
    rw [← hn] at hlength
    obtain ⟨v', hv'⟩ := exists_isVarint hlength
    have heq : first :: tail = (first :: tail.take n) ++ tail.drop n := by
      rw [List.cons_append, List.take_append_drop]
    have hreturns := hv'.returns (tail.drop n)
    rw [← heq] at hreturns
    obtain ⟨rfl, -⟩ := h.unique hreturns
    exact ⟨_, hv', heq⟩
  · rintro ⟨c, hc, rfl⟩
    exact hc.returns r

theorem IsVarint.ne_nil {v : UInt64} {b : Bytes} (h : IsVarint v b) : b ≠ [] := by
  obtain ⟨first, tail, rfl, -⟩ := h.length
  simp

/-- No encoding is in front of another. -/
theorem IsVarint.append_inj {v v' : UInt64} {c c' r r' : Bytes} (h : IsVarint v c)
    (h' : IsVarint v' c') (heq : c ++ r = c' ++ r') : v = v' ∧ c = c' ∧ r = r' := by
  have hreturns := h.returns r
  rw [heq] at hreturns
  obtain ⟨rfl, rfl⟩ := hreturns.unique (h'.returns r')
  exact ⟨rfl, List.append_cancel_right heq, rfl⟩

/-! ### The shortest encoding -/

theorem bigEndian_eq_ofDigits (bytes : Bytes) :
    bigEndian bytes = Nat.ofDigits 256 (bytes.map UInt8.toNat).reverse := by
  rw [Nat.ofDigits_eq_foldr, List.foldr_reverse, List.foldl_map]
  simp only [bigEndian, Nat.cast_id, Nat.add_comm, Nat.mul_comm]

theorem bigEndian_lt (bytes : Bytes) : bigEndian bytes < 256 ^ bytes.length := by
  rw [bigEndian_eq_ofDigits]
  refine Nat.lt_of_lt_of_eq (Nat.ofDigits_lt_base_pow_length (by decide) ?_) (by simp)
  intro x hx
  obtain ⟨byte, -, rfl⟩ := List.mem_map.mp (List.mem_reverse.mp hx)
  exact byte.toNat_lt

theorem bigEndian_cons (first : UInt8) (tail : Bytes) :
    bigEndian (first :: tail) = first.toNat * 256 ^ tail.length + bigEndian tail := by
  rw [bigEndian_eq_ofDigits, bigEndian_eq_ofDigits, List.map_cons, List.reverse_cons,
    Nat.ofDigits_append, Nat.ofDigits_singleton, List.length_reverse, List.length_map]
  ring

/-- Bytes are known from their number and the number that they stand for. -/
theorem bigEndian_injective {a b : Bytes} (hlen : a.length = b.length)
    (h : bigEndian a = bigEndian b) : a = b := by
  rw [bigEndian_eq_ofDigits, bigEndian_eq_ofDigits] at h
  have hlt (l : Bytes) : ∀ x ∈ (l.map UInt8.toNat).reverse, x < 256 := by
    intro x hx
    obtain ⟨byte, -, rfl⟩ := List.mem_map.mp (List.mem_reverse.mp hx)
    exact byte.toNat_lt
  have hdigits := Nat.ofDigits_inj_of_len_eq (by decide) (by simp [hlen]) (hlt a) (hlt b) h
  exact List.map_injective_iff.mpr (fun _ _ => UInt8.toNat.inj) (List.reverse_injective hdigits)

theorem IsVarint.value {v : UInt64} {first : UInt8} {tail : Bytes}
    (h : IsVarint v (first :: tail)) :
    bigEndian (first :: tail) % 2 ^ varintBits (tail.length + 1) = v.toNat := by
  obtain ⟨_, _, heq, hlength⟩ := h.length
  obtain ⟨rfl, rfl⟩ := List.cons_eq_cons.mp heq
  have hbits := (varintBits_le hlength).2
  have hlt : bigEndian (first :: tail) % 2 ^ varintBits (tail.length + 1) < 2 ^ 64 :=
    Nat.lt_of_lt_of_le (Nat.mod_lt _ (Nat.two_pow_pos _))
      (Nat.pow_le_pow_right (by decide) hbits)
  have hvalue := (UInt64.toNat_ofNat_of_lt' hlt).symm
  obtain ⟨rfl, -⟩ := (isVarint_of_length hlength hvalue).unique h
  exact hvalue

/-- The bits in front of the value bits of a first byte follow from the length that it stands for,
but for `0xfd`, which no row of the table of prefixes has. -/
theorem prefixBits_of_byteLength {first : UInt8} {len : Nat} (hfd : first ≠ 0xfd)
    (h : varintByteLength first = .ok len) :
    first.toNat / 2 ^ (8 - len) = min (2 ^ len - 2) 255 := by
  have hall : ∀ first : UInt8, first ≠ 0xfd → ∀ len < 10, varintByteLength first = .ok len →
      first.toNat / 2 ^ (8 - len) = min (2 ^ len - 2) 255 :=
    forall_byte (by decide +kernel)
  have hbits := varintBits_le h
  simp only [varintBits] at hbits
  exact hall first hfd len (by omega) h

/-- Two encodings of a value that have the same length are the same. -/
theorem IsVarint.eq_of_length {v : UInt64} {b c : Bytes} (hb : IsVarint v b) (hc : IsVarint v c)
    (hlen : b.length = c.length) (hb' : b.head? ≠ some 0xfd) (hc' : c.head? ≠ some 0xfd) :
    b = c := by
  obtain ⟨first, tail, rfl, hfirst⟩ := hb.length
  obtain ⟨first', tail', rfl, hfirst'⟩ := hc.length
  have htails : tail.length = tail'.length := by simpa using hlen
  have hhigh := prefixBits_of_byteLength (by simpa using hb') hfirst
  have hhigh' := prefixBits_of_byteLength (by simpa using hc') hfirst'
  have hvalue := hb.value.trans hc.value.symm
  rw [bigEndian_cons, bigEndian_cons, ← htails] at hvalue
  rw [← htails] at hhigh'
  have hlt := bigEndian_lt tail
  have hlt' := bigEndian_lt tail'
  rw [← htails] at hlt'
  have hbase : 0 < 256 ^ tail.length := Nat.pow_pos (by decide)
  have hbits : 2 ^ varintBits (tail.length + 1) =
      2 ^ (8 - (tail.length + 1)) * 256 ^ tail.length := by
    rw [varintBits, show 256 = 2 ^ 8 from rfl, ← Nat.pow_mul, ← Nat.pow_add, Nat.add_comm]
    rfl
  rw [hbits] at hvalue
  -- the bytes after the first are the low digits of the value, its value bits are the high one
  have hlow := congrArg (· % 256 ^ tail.length) hvalue
  have hhead := congrArg (· / 256 ^ tail.length) hvalue
  simp only [Nat.mod_mul_left_mod, Nat.mul_add_mod_of_lt hlt, Nat.mul_add_mod_of_lt hlt'] at hlow
  simp only [Nat.mod_mul_left_div_self, Nat.add_comm _ (bigEndian _),
    Nat.add_mul_div_right _ _ hbase, Nat.div_eq_of_lt hlt, Nat.div_eq_of_lt hlt',
    Nat.zero_add] at hhead
  obtain rfl := bigEndian_injective htails hlow
  have hfirst_eq : first.toNat = first'.toNat := by
    rw [← Nat.div_add_mod first.toNat (2 ^ (8 - (tail.length + 1))), hhigh, ← hhigh', hhead,
      Nat.div_add_mod]
  rw [UInt8.toNat.inj hfirst_eq]

theorem length_encodeVarint_le {v : UInt64} {c : Bytes} (h : IsVarint v c) :
    (encodeVarint v).length ≤ c.length := by
  obtain ⟨first, tail, rfl, hlength⟩ := h.length
  have hlt : v.toNat < 2 ^ varintBits (tail.length + 1) := by
    rw [← h.value]
    exact Nat.mod_lt _ (Nat.two_pow_pos _)
  have hlens := varintByteLength_mem hlength
  rw [List.length_cons]
  generalize tail.length + 1 = len at hlt hlens
  simp only [List.mem_cons, List.not_mem_nil, or_false] at hlens
  -- a value that is too large for `k` bytes has no encoding of `k` bytes or fewer
  have hmore {k : Nat} (hk : 2 ^ varintBits k ≤ v.toNat) : k < len := by
    by_contra hle
    have hbits : varintBits len ≤ varintBits k := by
      simp only [varintBits]
      omega
    have hpow : 2 ^ varintBits len ≤ 2 ^ varintBits k := Nat.pow_le_pow_right (by decide) hbits
    exact absurd hlt (Nat.not_lt.mpr (hpow.trans hk))
  have h1 := hmore (k := 1)
  have h2 := hmore (k := 2)
  have h3 := hmore (k := 3)
  have h4 := hmore (k := 4)
  have h5 := hmore (k := 5)
  have h6 := hmore (k := 6)
  have h8 := hmore (k := 8)
  simp only [varintBits] at h1 h2 h3 h4 h5 h6 h8
  clear hmore hlt
  simp only [encodeVarint, UInt64.le_iff_toNat_le, UInt64.reduceToNat]
  repeat' split
  all_goals
    simp only [List.length_cons, List.length_nil]
    omega

theorem head_encodeVarint (v : UInt64) : (encodeVarint v).head? ≠ some 0xfd := by
  intro hhead
  obtain ⟨first, tail, heq, hlength⟩ := (isVarint_encode v).length
  rw [heq, List.head?_cons, Option.some.injEq] at hhead
  subst hhead
  have hnine : 9 = tail.length + 1 := Outcome.ok.inj hlength
  have hlen : (encodeVarint v).length = 9 := by
    rw [heq, List.length_cons, ← hnine]
  revert heq hlen
  unfold encodeVarint
  repeat' split
  all_goals simp

/-- `b` is an encoding of `v`, and none is shorter.  `0xfd` is in front of no such encoding: it is
not in the table of prefixes, though it is read as a prefix of 9 bytes. -/
def IsMinimalVarint (v : UInt64) (b : Bytes) : Prop :=
  IsVarint v b ∧ b.head? ≠ some 0xfd ∧ ∀ c, IsVarint v c → b.length ≤ c.length

theorem isMinimalVarint_encode (v : UInt64) : IsMinimalVarint v (encodeVarint v) :=
  ⟨isVarint_encode v, head_encodeVarint v, fun _ => length_encodeVarint_le⟩

/-- The shortest encoding is the one that is written. -/
theorem IsMinimalVarint.eq_encode {v : UInt64} {b : Bytes} (h : IsMinimalVarint v b) :
    b = encodeVarint v :=
  h.1.eq_of_length (isVarint_encode v)
    (Nat.le_antisymm (h.2.2 _ (isVarint_encode v)) (length_encodeVarint_le h.1)) h.2.1
    (head_encodeVarint v)

/-! ### Blocks with a length -/

/-- `b` is the length of `payload` followed by `payload`. -/
def LengthPrefixed (payload b : Bytes) : Prop :=
  ∃ len n, IsVarint len n ∧ len.toNat = payload.length ∧ b = n ++ payload

theorem LengthPrefixed.returns {payload b : Bytes} (h : LengthPrefixed payload b) (rest : Bytes) :
    ∃ len, decodeVarint.Returns (b ++ rest) len (payload ++ rest) ∧ len.toNat = payload.length := by
  obtain ⟨len, n, hn, hlen, rfl⟩ := h
  rw [List.append_assoc]
  exact ⟨len, hn.returns _, hlen⟩

end Moqt.Wire
