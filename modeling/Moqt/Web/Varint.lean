import Moqt.Library.Double
import Moqt.Library.Codec
import Moqt.Wire.Varint

/-! Variable-length integers in the browser client, whose numbers are doubles.  The numbers of the
model are integers; a sum or product of them is rounded where the code adds or multiplies, and a
`number` that is not an integer does not occur. -/

namespace Moqt.Web

open Library

abbrev Bytes := Wire.Bytes

/-! ### Encoding -/

/-- A row of `TIERS`: the largest value, the number of bytes, and the bits in front of the value. -/
structure Tier where
  maxVal : Int
  byteCount : Nat
  prefixBits : UInt8

def TIERS : List Tier := [
  ⟨0x7f, 1, 0x00⟩,
  ⟨0x3fff, 2, 0x80⟩,
  ⟨0x1fffff, 3, 0xc0⟩,
  ⟨0x0fffffff, 4, 0xe0⟩,
  ⟨0x07ffffffff, 5, 0xf0⟩,
  ⟨0x03ffffffffff, 6, 0xf8⟩]

/-- The loop that fills the last `n` bytes of a buffer with `value`, from the end of it. -/
def fill : (n : Nat) → (value : Int) → Bytes
  | 0, _ => []
  | n + 1, value => fill n (value / 256) ++ [UInt8.ofNat (value % 256).toNat]

/-- The literal `0x00ffffffffffffff`, which is not a double. -/
def maxEightBytes : Nat := Double.round 0x00ffffffffffffff

def encodeVarint (value : Int) : Bytes :=
  match TIERS.find? fun tier => value ≤ tier.maxVal with
  | some tier => (fill tier.byteCount value).modifyHead (· ||| tier.prefixBits)
  | none =>
    if value ≤ maxEightBytes then 0xfe :: fill 7 value
    else 0xff :: fill 8 value

/-! ### Decoding -/

def varintByteLength (firstByte : UInt8) : Outcome Nat :=
  if firstByte &&& 0x80 == 0 then .ok 1
  else if firstByte &&& 0xc0 == 0x80 then .ok 2
  else if firstByte &&& 0xe0 == 0xc0 then .ok 3
  else if firstByte &&& 0xf0 == 0xe0 then .ok 4
  else if firstByte &&& 0xf8 == 0xf0 then .ok 5
  else if firstByte &&& 0xfc == 0xf8 then .ok 6
  else if firstByte == 0xfc || firstByte == 0xfd then
    .err s!"invalid varint code point 0x{Wire.upperHex firstByte.toUInt64}"
  else if firstByte == 0xfe then .ok 8
  else .ok 9

def masks : Nat → Nat
  | 1 => 0x7f
  | 2 => 0x3fff
  | 3 => 0x1fffff
  | 4 => 0x0fffffff
  | 5 => 0x07ffffffff
  | 6 => 0x03ffffffffff
  | 8 => maxEightBytes
  | _ => 2 ^ 53 - 1  -- `Number.MAX_SAFE_INTEGER`

/-- The loop that combines the bytes of a varint. -/
def combine (bytes : Bytes) : Nat :=
  bytes.foldl (fun value byte => Double.add (Double.round (value * 256)) byte.toNat) 0

/-- The prefix bits are taken off, in 32-bit arithmetic where there are at most 4 bytes. -/
def stripPrefixBits (len value : Nat) : Nat :=
  if len ≤ 4 then value % 2 ^ 32 &&& masks len else value % Double.add (masks len) 1

/-- The value at an offset of a buffer, and the number of its bytes. -/
def decodeVarint (buf : Bytes) (offset : Nat) : Outcome (Nat × Nat) :=
  match buf[offset]? with
  | none => .err "varint: empty buffer"
  | some firstByte => do
    let len ← varintByteLength firstByte
    Outcome.ensure (offset + len ≤ buf.length)
      s!"varint: need {len} bytes, have {buf.length - offset}"
    return (stripPrefixBits len (combine ((buf.drop offset).take len)), len)

example : encodeVarint 0x4000 = [0xc0, 0x40, 0x00] := by decide
example : decodeVarint [0x00, 0xc0, 0x40, 0x00] 1 = .ok (0x4000, 3) := by decide

/-! ### What is written -/

theorem fill_succ (n value : Nat) :
    fill (n + 1) value = fill n (value / 256 : Nat) ++ [UInt8.ofNat (value % 256)] := by
  simp only [fill]
  norm_cast

theorem toUInt8_eq (v : UInt64) : UInt8.ofNat (v.toNat % 256) = v.toUInt8 := by
  apply UInt8.toNat.inj
  rw [UInt8.toNat_ofNat', Nat.mod_mod, UInt64.toNat_toUInt8]

/-- The bytes of a value are those of its upper bits, followed by its last byte. -/
theorem fill_toNat (n : Nat) (v : UInt64) :
    fill (n + 1) v.toNat = fill n (v >>> 8).toNat ++ [v.toUInt8] := by
  have hshift : (v >>> 8).toNat = v.toNat / 256 := by
    rw [UInt64.toNat_shiftRight, Nat.shiftRight_eq_div_pow]
    rfl
  rw [fill_succ, toUInt8_eq, hshift]

theorem shiftRight_shiftRight (v : UInt64) {a b : UInt64} (h : a.toNat + b.toNat < 64) :
    (v >>> a) >>> b = v >>> (a + b) := by
  apply UInt64.toNat.inj
  have ha : a.toNat % 64 = a.toNat := Nat.mod_eq_of_lt (by omega)
  have hb : b.toNat % 64 = b.toNat := Nat.mod_eq_of_lt (by omega)
  have hab : (a + b).toNat = a.toNat + b.toNat := by
    rw [UInt64.toNat_add, Nat.mod_eq_of_lt (by omega)]
  simp only [UInt64.toNat_shiftRight, ha, hb, hab, Nat.mod_eq_of_lt h, Nat.shiftRight_add]

/-- The two clients write the same bytes, but for the value that the literal is rounded to. -/
theorem encodeVarint_eq {v : UInt64} (hv : v.toNat ≠ 2 ^ 56) :
    encodeVarint v.toNat = Wire.encodeVarint v := by
  have hle (limit : UInt64) : (v.toNat : Int) ≤ limit.toNat ↔ v ≤ limit := by
    rw [UInt64.le_iff_toNat_le, Nat.cast_le]
  have height : (v.toNat : Int) ≤ maxEightBytes ↔ v ≤ 0x00ffffffffffffff := by
    have hmax : maxEightBytes = 2 ^ 56 := by decide
    rw [hmax, UInt64.le_iff_toNat_le, Nat.cast_le]
    simp only [UInt64.reduceToNat]
    omega
  have h1 : (v.toNat : Int) ≤ 0x7f ↔ _ := hle 0x7f
  have h2 : (v.toNat : Int) ≤ 0x3fff ↔ _ := hle 0x3fff
  have h3 : (v.toNat : Int) ≤ 0x1fffff ↔ _ := hle 0x1fffff
  have h4 : (v.toNat : Int) ≤ 0x0fffffff ↔ _ := hle 0x0fffffff
  have h5 : (v.toNat : Int) ≤ 0x07ffffffff ↔ _ := hle 0x07ffffffff
  have h6 : (v.toNat : Int) ≤ 0x03ffffffffff ↔ _ := hle 0x03ffffffffff
  simp only [encodeVarint, TIERS, List.find?_cons, List.find?_nil, Wire.encodeVarint, h1, h2, h3,
    h4, h5, h6, height]
  clear hle height h1 h2 h3 h4 h5 h6
  have h0 (n : Nat) := fill_toNat n v
  have next : ∀ n (s : UInt64), s.toNat + 8 < 64 →
      fill (n + 1) (v >>> s).toNat = fill n (v >>> (s + 8)).toNat ++ [(v >>> s).toUInt8] := by
    intro n s hs
    rw [fill_toNat, shiftRight_shiftRight v hs]
  have h8 (n : Nat) : _ = fill n (v >>> 16).toNat ++ _ := next n 8 (by decide)
  have h16 (n : Nat) : _ = fill n (v >>> 24).toNat ++ _ := next n 16 (by decide)
  have h24 (n : Nat) : _ = fill n (v >>> 32).toNat ++ _ := next n 24 (by decide)
  have h32 (n : Nat) : _ = fill n (v >>> 40).toNat ++ _ := next n 32 (by decide)
  have h40 (n : Nat) : _ = fill n (v >>> 48).toNat ++ _ := next n 40 (by decide)
  have h48 (n : Nat) : _ = fill n (v >>> 56).toNat ++ _ := next n 48 (by decide)
  have h56 : fill 1 (v >>> 56).toNat = fill 0 _ ++ _ := fill_toNat 0 _
  have f1 : fill 1 v.toNat = [v.toUInt8] := h0 0
  have f2 : fill 2 v.toNat = [(v >>> 8).toUInt8, v.toUInt8] := by
    rw [h0, h8]
    rfl
  have f3 : fill 3 v.toNat = (v >>> 16).toUInt8 :: [(v >>> 8).toUInt8, v.toUInt8] := by
    rw [h0, h8, h16]
    rfl
  have f4 : fill 4 v.toNat =
      [(v >>> 24).toUInt8, (v >>> 16).toUInt8, (v >>> 8).toUInt8, v.toUInt8] := by
    rw [h0, h8, h16, h24]
    rfl
  have f5 : fill 5 v.toNat = [(v >>> 32).toUInt8, (v >>> 24).toUInt8, (v >>> 16).toUInt8,
      (v >>> 8).toUInt8, v.toUInt8] := by
    rw [h0, h8, h16, h24, h32]
    rfl
  have f6 : fill 6 v.toNat = [(v >>> 40).toUInt8, (v >>> 32).toUInt8, (v >>> 24).toUInt8,
      (v >>> 16).toUInt8, (v >>> 8).toUInt8, v.toUInt8] := by
    rw [h0, h8, h16, h24, h32, h40]
    rfl
  have f7 : fill 7 v.toNat = [(v >>> 48).toUInt8, (v >>> 40).toUInt8, (v >>> 32).toUInt8,
      (v >>> 24).toUInt8, (v >>> 16).toUInt8, (v >>> 8).toUInt8, v.toUInt8] := by
    rw [h0, h8, h16, h24, h32, h40, h48]
    rfl
  have f8 : fill 8 v.toNat = [(v >>> 56).toUInt8, (v >>> 48).toUInt8, (v >>> 40).toUInt8,
      (v >>> 32).toUInt8, (v >>> 24).toUInt8, (v >>> 16).toUInt8, (v >>> 8).toUInt8,
      v.toUInt8] := by
    rw [h0, h8, h16, h24, h32, h40, h48, h56]
    rfl
  by_cases c1 : v ≤ 0x7f
  · simp [c1, f1]
  by_cases c2 : v ≤ 0x3fff
  · simp [c1, c2, f2, UInt8.or_comm]
  by_cases c3 : v ≤ 0x1fffff
  · simp [c1, c2, c3, f3, UInt8.or_comm]
  by_cases c4 : v ≤ 0x0fffffff
  · simp [c1, c2, c3, c4, f4, UInt8.or_comm]
  by_cases c5 : v ≤ 0x07ffffffff
  · simp [c1, c2, c3, c4, c5, f5, UInt8.or_comm]
  by_cases c6 : v ≤ 0x03ffffffffff
  · simp [c1, c2, c3, c4, c5, c6, f6, UInt8.or_comm]
  by_cases c8 : v ≤ 0x00ffffffffffffff
  · simp [c1, c2, c3, c4, c5, c6, c8, f7]
  · simp [c1, c2, c3, c4, c5, c6, c8, f8]

/-! ### What is read -/

theorem varintByteLength_pos {first : UInt8} {len : Nat} (h : varintByteLength first = .ok len) :
    1 ≤ len := by
  unfold varintByteLength at h
  repeat' split at h
  all_goals first
    | cases h; done
    | obtain rfl := Outcome.ok.inj h
      decide

/-- The bytes are as many as the first one stands for. -/
def IsCode (w : Bytes) : Prop :=
  ∃ first tail, w = first :: tail ∧ varintByteLength first = .ok (tail.length + 1)

/-- The value that is read from the bytes of a varint. -/
def numberOf (w : Bytes) : Nat := stripPrefixBits w.length (combine w)

theorem decodeVarint_code {w : Bytes} (h : IsCode w) (before rest : Bytes) :
    decodeVarint (before ++ (w ++ rest)) before.length = .ok (numberOf w, w.length) := by
  obtain ⟨first, tail, rfl, hlength⟩ := h
  have hget : (before ++ (first :: tail ++ rest))[before.length]? = some first := by simp
  have hfits : before.length + (tail.length + 1) ≤ (before ++ (first :: tail ++ rest)).length := by
    simp only [List.length_append, List.length_cons]
    omega
  have htake : ((before ++ (first :: tail ++ rest)).drop before.length).take (tail.length + 1) =
      first :: tail := by simp
  rw [decodeVarint, hget]
  simp only [hlength]
  show (Outcome.ensure (decide (_ ≤ _)) _).bind _ = _
  rw [decide_eq_true hfits, htake]
  rfl

theorem decodeVarint_ok (before : Bytes) {rest : Bytes} {value bytesRead : Nat}
    (h : decodeVarint (before ++ rest) before.length = .ok (value, bytesRead)) :
    ∃ w rest', rest = w ++ rest' ∧ IsCode w ∧ value = numberOf w ∧ bytesRead = w.length := by
  unfold decodeVarint at h
  split at h
  · cases h
  next first hget =>
    obtain ⟨tail, rfl⟩ : ∃ tail, rest = first :: tail := by
      rw [List.getElem?_append_right (Nat.le_refl _), Nat.sub_self] at hget
      cases rest with
      | nil => cases hget
      | cons byte tail =>
        obtain rfl := Option.some.inj hget
        exact ⟨tail, rfl⟩
    simp only [ok_bind, ok_ensure, ok_pure, Prod.mk.injEq, decide_eq_true_eq] at h
    obtain ⟨len, hlength, -, hfits, rfl, rfl⟩ := h
    simp only [List.length_append, List.length_cons] at hfits
    obtain ⟨n, rfl⟩ := Nat.exists_eq_add_of_le' (varintByteLength_pos hlength)
    have hn : (tail.take n).length = n := List.length_take_of_le (by omega)
    refine ⟨first :: tail.take n, tail.drop n, by simp, ⟨first, _, rfl, by rwa [hn]⟩, ?_, ?_⟩
    · rw [List.drop_left, numberOf, List.length_cons, hn]
      rfl
    · rw [List.length_cons, hn]

theorem IsCode.length_pos {w : Bytes} (h : IsCode w) : 1 ≤ w.length := by
  obtain ⟨first, tail, rfl, -⟩ := h
  simp

/-- A varint is told from what follows it by its first byte. -/
theorem IsCode.append_inj {w w' r r' : Bytes} (h : IsCode w) (h' : IsCode w')
    (heq : w ++ r = w' ++ r') : w = w' ∧ r = r' := by
  obtain ⟨first, tail, rfl, hlength⟩ := h
  obtain ⟨first', tail', rfl, hlength'⟩ := h'
  obtain ⟨rfl, -⟩ := List.cons_eq_cons.mp heq
  rw [hlength] at hlength'
  exact List.append_inj heq (Outcome.ok.inj hlength')

/-- A varint in a buffer that may be cut off is read if it is there as a whole. -/
theorem decodeVarint_take_iff {before w : Bytes} (hw : IsCode w) (rest : Bytes) {end_ : Nat}
    {value bytesRead : Nat} :
    decodeVarint ((before ++ (w ++ rest)).take end_) before.length = .ok (value, bytesRead) ↔
      before.length + w.length ≤ end_ ∧ value = numberOf w ∧ bytesRead = w.length := by
  have hpos := hw.length_pos
  constructor
  · intro h
    have hstart : before.length < end_ := by
      by_cases hlt : before.length < end_
      · exact hlt
      · rw [decodeVarint, List.getElem?_eq_none] at h
        · cases h
        · rw [List.length_take]
          omega
    obtain ⟨n, rfl⟩ := Nat.exists_eq_add_of_le (Nat.le_of_lt hstart)
    rw [List.take_length_add_append] at h
    obtain ⟨w', rest', heq, hw', rfl, rfl⟩ := decodeVarint_ok before h
    have hall : w ++ rest = w' ++ (rest' ++ (w ++ rest).drop n) := by
      rw [← List.append_assoc, ← heq, List.take_append_drop]
    obtain ⟨rfl, -⟩ := hw.append_inj hw' hall
    have hlength := congrArg List.length heq
    simp only [List.length_take, List.length_append] at hlength
    exact ⟨by omega, rfl, rfl⟩
  · rintro ⟨hle, rfl, rfl⟩
    obtain ⟨n, rfl⟩ := Nat.exists_eq_add_of_le hle
    rw [Nat.add_assoc, List.take_length_add_append, List.take_length_add_append]
    exact decodeVarint_code hw before _

/-- The clients tell the same length from a first byte, but for `0xfd`. -/
theorem varintByteLength_iff {first : UInt8} (hfd : first ≠ 0xfd) {len : Nat} :
    varintByteLength first = .ok len ↔ Wire.varintByteLength first = .ok len := by
  by_cases hfc : first = 0xfc
  · subst hfc
    constructor <;> nofun
  · unfold varintByteLength Wire.varintByteLength
    simp only [beq_eq_false_iff_ne.mpr hfd, beq_eq_false_iff_ne.mpr hfc, Bool.or_self,
      Bool.false_eq_true, if_false]

/-- What the browser reads as a varint the relay does too; only `0xfd` is refused by one alone. -/
theorem isCode_iff {w : Bytes} :
    IsCode w ↔ (∃ v, Wire.IsVarint v w) ∧ w.head? ≠ some 0xfd := by
  have hrefused : ∀ len, varintByteLength 0xfd ≠ .ok len := nofun
  constructor
  · rintro ⟨first, tail, rfl, hlength⟩
    have hfd : first ≠ 0xfd := by
      rintro rfl
      exact hrefused _ hlength
    exact ⟨Wire.exists_isVarint ((varintByteLength_iff hfd).mp hlength), by simpa using hfd⟩
  · rintro ⟨⟨v, hv⟩, hfd⟩
    obtain ⟨first, tail, rfl, hlength⟩ := hv.length
    exact ⟨first, tail, rfl, (varintByteLength_iff (by simpa using hfd)).mpr hlength⟩

/-! ### The values that are read -/

theorem combine_concat (w : Bytes) (byte : UInt8) :
    combine (w ++ [byte]) = Double.add (Double.round (combine w * 256)) byte.toNat := by
  rw [combine, List.foldl_append]
  rfl

theorem bigEndian_concat (w : Bytes) (byte : UInt8) :
    Wire.bigEndian (w ++ [byte]) = Wire.bigEndian w * 256 + byte.toNat := by
  rw [Wire.bigEndian, List.foldl_append]
  rfl

/-- A byte more is combined exactly if doubles hold the results of the two operations. -/
theorem combine_concat_eq {w : Bytes} {byte : UInt8} (hw : combine w = Wire.bigEndian w)
    (hmul : Double.Holds (Wire.bigEndian w * 256))
    (hadd : Double.Holds (Wire.bigEndian (w ++ [byte]))) :
    combine (w ++ [byte]) = Wire.bigEndian (w ++ [byte]) := by
  rw [combine_concat, hw, hmul, Double.add, ← bigEndian_concat]
  exact hadd

theorem combine_of_lt {w : Bytes} (h : Wire.bigEndian w < 2 ^ 53) :
    combine w = Wire.bigEndian w := by
  induction w using List.reverseRecOn with
  | nil => rfl
  | append_singleton w byte ih =>
    have hconcat := bigEndian_concat w byte
    have hlt : Wire.bigEndian w * 256 < 2 ^ 53 := by omega
    exact combine_concat_eq (ih (by omega)) (Double.holds_of_lt hlt) (Double.holds_of_lt h)

/-- The value bits of a number that is combined exactly. -/
theorem stripPrefixBits_eq {len value : Nat} (h : len ∈ [1, 2, 3, 4, 5, 6, 8]) :
    stripPrefixBits len value = value % 2 ^ Wire.varintBits len := by
  have hmask {k : Nat} (hk : 2 ^ k ∣ 2 ^ 32) : value % 2 ^ 32 &&& (2 ^ k - 1) = value % 2 ^ k := by
    rw [Nat.and_two_pow_sub_one_eq_mod, Nat.mod_mod_of_dvd _ hk]
  simp only [List.mem_cons, List.not_mem_nil, or_false] at h
  rcases h with rfl | rfl | rfl | rfl | rfl | rfl | rfl
  · exact hmask (k := 7) (by decide)
  · exact hmask (k := 14) (by decide)
  · exact hmask (k := 21) (by decide)
  · exact hmask (k := 28) (by decide)
  · show value % Double.add (masks 5) 1 = value % 2 ^ 35
    rw [show Double.add (masks 5) 1 = 2 ^ 35 by decide]
  · show value % Double.add (masks 6) 1 = value % 2 ^ 42
    rw [show Double.add (masks 6) 1 = 2 ^ 42 by decide]
  · show value % Double.add (masks 8) 1 = value % 2 ^ 56
    rw [show Double.add (masks 8) 1 = 2 ^ 56 by decide]

/-- A varint of at most 6 bytes is read exactly. -/
theorem numberOf_short {v : UInt64} {w : Bytes} (h : Wire.IsVarint v w) (hlen : w.length ≤ 6) :
    numberOf w = v.toNat := by
  have hlt : Wire.bigEndian w < 2 ^ 53 := by
    refine Nat.lt_of_lt_of_le (Wire.bigEndian_lt w) ?_
    exact (Nat.pow_le_pow_right (by decide) hlen).trans (by decide)
  obtain ⟨first, tail, rfl, hlength⟩ := h.length
  have hmem := Wire.varintByteLength_mem hlength
  rw [numberOf, combine_of_lt hlt, stripPrefixBits_eq, ← h.value]
  · rfl
  · simp only [List.length_cons] at hlen
    simp only [List.length_cons, List.mem_cons, List.not_mem_nil, or_false] at hmem ⊢
    omega

/-- Combining does not lose the order of magnitude. -/
theorem two_pow_le_combine {first : UInt8} {k : Nat} (h : 2 ^ k ≤ first.toNat) (tail : Bytes) :
    2 ^ (k + 8 * tail.length) ≤ combine (first :: tail) := by
  induction tail using List.reverseRecOn with
  | nil =>
    have hcombine : combine [first] = first.toNat := by
      have hlt : Wire.bigEndian [first] < 2 ^ 53 := by
        have := first.toNat_lt
        simp only [Wire.bigEndian, List.foldl_cons, List.foldl_nil]
        omega
      rw [combine_of_lt hlt]
      simp [Wire.bigEndian]
    rw [hcombine]
    exact h
  | append_singleton tail byte ih =>
    rw [← List.cons_append, combine_concat, List.length_append, List.length_singleton]
    have hmul : 2 ^ (k + 8 * (tail.length + 1)) ≤ combine (first :: tail) * 256 := by
      rw [show k + 8 * (tail.length + 1) = k + 8 * tail.length + 8 by omega, Nat.pow_add]
      exact Nat.mul_le_mul_right _ ih
    exact Double.two_pow_le_round (Nat.le_add_right_of_le (Double.two_pow_le_round hmul))

/-- Of a varint of 8 bytes the last one is lost, and so are three bits in front of it. -/
theorem numberOf_eight {v : UInt64} {tail : Bytes} (h : Wire.IsVarint v (0xfe :: tail))
    (hlen : tail.length = 7) : numberOf (0xfe :: tail) = v.toNat ↔ v.toNat % 2048 = 0 := by
  obtain ⟨body, last, rfl⟩ : ∃ body last, tail = body ++ [last] := by
    rcases List.eq_nil_or_concat tail with rfl | ⟨body, last, rfl⟩
    · cases hlen
    · exact ⟨body, last, List.concat_eq_append⟩
  have hbody : body.length = 6 := by simpa using hlen
  have hbits : Wire.varintBits (7 + 1) = 56 := rfl
  have hvalue := h.value
  have hnumber : numberOf (0xfe :: (body ++ [last])) =
      combine (0xfe :: (body ++ [last])) % 2 ^ 56 := by
    rw [numberOf, List.length_cons, hlen]
    exact stripPrefixBits_eq (by decide)
  rw [hlen, hbits, ← List.cons_append] at hvalue
  rw [← List.cons_append] at hnumber ⊢
  have hconcat := bigEndian_concat (0xfe :: body) last
  have hlast := last.toNat_lt
  have hlarge : 2 ^ 63 ≤ combine (0xfe :: body) * 256 := by
    have h := two_pow_le_combine (show 2 ^ 7 ≤ UInt8.toNat 0xfe by decide) body
    rw [hbody] at h
    omega
  rw [hnumber, ← hvalue]
  constructor
  · intro heq
    have hdvd : 2 ^ 11 ∣ combine ((0xfe :: body) ++ [last]) := by
      rw [combine_concat]
      exact Double.dvd_round (Nat.le_add_right_of_le (Double.two_pow_le_round hlarge))
    omega
  · intro hmod
    -- the byte that is lost is zero, and what is in front of it is a multiple of 8
    have hlt : Wire.bigEndian (0xfe :: body) < 2 ^ 56 := by
      have h := Wire.bigEndian_lt (0xfe :: body)
      rwa [List.length_cons, hbody] at h
    have hdvd : 2 ^ 3 ∣ Wire.bigEndian (0xfe :: body) := by omega
    have hexact : combine (0xfe :: body) = Wire.bigEndian (0xfe :: body) := by
      obtain ⟨front, byte, rfl⟩ : ∃ front byte, body = front ++ [byte] := by
        rcases List.eq_nil_or_concat body with rfl | ⟨front, byte, rfl⟩
        · cases hbody
        · exact ⟨front, byte, List.concat_eq_append⟩
      have hfront : Wire.bigEndian (0xfe :: front) < 2 ^ 48 := by
        have h := Wire.bigEndian_lt (0xfe :: front)
        rwa [List.length_cons, show front.length = 5 by simpa using hbody] at h
      rw [← List.cons_append] at hlt hdvd ⊢
      refine combine_concat_eq (combine_of_lt (by omega)) ?_ ?_
      · exact Double.holds_of_dvd (s := 8) (Nat.dvd_mul_left _ _) (by omega)
      · exact Double.holds_of_dvd (s := 3) hdvd hlt
    rw [combine_concat_eq hexact]
    · exact Double.holds_of_dvd (s := 11) (by omega) (by omega)
    · exact Double.holds_of_dvd (s := 11) (by omega) (by omega)

theorem numberOf_nine {w : Bytes} (hlen : w.length = 9) : numberOf w < 2 ^ 53 := by
  have hmask : Double.add (masks 9) 1 = 2 ^ 53 := by decide
  have hnumber : numberOf w = combine w % Double.add (masks 9) 1 := by
    rw [numberOf, hlen]
    rfl
  rw [hnumber, hmask]
  exact Nat.mod_lt _ (by decide)

/-- The browser reads the shortest encoding of these values as what it is. -/
def Readable (v : UInt64) : Prop :=
  v.toNat < 2 ^ 42 ∨ (v.toNat < 2 ^ 56 ∧ v.toNat % 2048 = 0)

theorem isCode_encode (v : UInt64) : IsCode (Wire.encodeVarint v) :=
  isCode_iff.mpr ⟨⟨v, Wire.isVarint_encode v⟩, Wire.head_encodeVarint v⟩

theorem encodeVarint_forms (v : UInt64) :
    (v.toNat < 2 ^ 42 ∧ (Wire.encodeVarint v).length ≤ 6) ∨
      (2 ^ 42 ≤ v.toNat ∧ v.toNat < 2 ^ 56 ∧
        ∃ tail, Wire.encodeVarint v = 0xfe :: tail ∧ tail.length = 7) ∨
      (2 ^ 56 ≤ v.toNat ∧ (Wire.encodeVarint v).length = 9) := by
  simp only [Wire.encodeVarint, UInt64.le_iff_toNat_le, UInt64.reduceToNat]
  repeat' split
  all_goals first
    | exact .inl ⟨by omega, by simp⟩
    | exact .inr (.inl ⟨by omega, by omega, _, rfl, rfl⟩)
    | exact .inr (.inr ⟨by omega, rfl⟩)

theorem numberOf_encode_iff {v : UInt64} :
    numberOf (Wire.encodeVarint v) = v.toNat ↔ Readable v := by
  have hv := Wire.isVarint_encode v
  unfold Readable
  rcases encodeVarint_forms v with ⟨hlt, hlen⟩ | ⟨hge, hlt, tail, heq, hlen⟩ | ⟨hge, hlen⟩
  · exact iff_of_true (numberOf_short hv hlen) (.inl hlt)
  · rw [heq] at hv ⊢
    rw [numberOf_eight hv hlen]
    omega
  · have hnine := numberOf_nine hlen
    omega

/-- What the relay reads of a number that the browser writes. -/
theorem exists_takes_encodeVarint (n : Nat) :
    ∃ v, Wire.decodeVarint.Takes (encodeVarint n) v ∧ v.toNat ≤ n ∧
      (v.toNat = n ↔ n < 2 ^ 64 ∧ n ≠ 2 ^ 56) := by
  have hbound (v : UInt64) := v.toNat_lt
  rcases Nat.lt_or_ge n (2 ^ 64) with hlt | hge
  · by_cases hn : n = 2 ^ 56
    · -- the seven bytes that are left of the value are zero
      subst hn
      refine ⟨0, fun rest => ?_, Nat.zero_le _, by decide⟩
      exact Wire.decodeVarint_local _ _ [] rest (show Wire.IsVarint 0 _ by decide)
    · have hnat : n.toUInt64.toNat = n := UInt64.toNat_ofNat_of_lt' hlt
      have heq := encodeVarint_eq (v := n.toUInt64) (by omega)
      rw [hnat] at heq
      rw [heq]
      exact ⟨n.toUInt64, Wire.decodeVarint_encode _, by omega, iff_of_true hnat ⟨hlt, hn⟩⟩
  · have hnine : encodeVarint n = 0xff :: fill 8 n := by
      have hfind : TIERS.find? (fun tier => decide ((n : Int) ≤ tier.maxVal)) = none := by
        rw [List.find?_eq_none]
        intro tier hmem
        have hmax : ∀ tier ∈ TIERS, tier.maxVal < 2 ^ 64 := by decide
        have htier := hmax tier hmem
        rw [decide_eq_true_eq]
        omega
      have hlarge : ¬(n : Int) ≤ maxEightBytes := by
        rw [show maxEightBytes = 2 ^ 56 by decide]
        omega
      rw [encodeVarint, hfind]
      exact if_neg hlarge
    have hlen : (fill 8 n).length = 8 := by simp [fill]
    have hcode : Wire.varintByteLength 0xff = .ok ((fill 8 n).length + 1) := by
      rw [hlen]
      rfl
    obtain ⟨v, hv⟩ := Wire.exists_isVarint hcode
    rw [hnine]
    have hv64 := hbound v
    refine ⟨v, fun rest => Wire.decodeVarint_local _ _ [] rest hv, by omega, ?_⟩
    omega

/-! ### Varints of one to six bytes -/

/-- `w` is an encoding of `n` of one to six bytes. -/
def ShortVarint (n : Nat) (w : Bytes) : Prop :=
  ∃ v, Wire.IsVarint v w ∧ w.length ≤ 6 ∧ v.toNat = n

/-- A varint at the start of the bytes is one of one to six bytes. -/
def StartsShort (b : Bytes) : Prop := ∀ first tail, b = first :: tail → first < 0xfc

theorem ShortVarint.numberOf {n : Nat} {w : Bytes} (h : ShortVarint n w) : numberOf w = n := by
  obtain ⟨v, hv, hlen, rfl⟩ := h
  exact numberOf_short hv hlen

theorem ShortVarint.isCode {n : Nat} {w : Bytes} (h : ShortVarint n w) : IsCode w := by
  obtain ⟨v, hv, hlen, rfl⟩ := h
  refine isCode_iff.mpr ⟨⟨v, hv⟩, fun hhead => ?_⟩
  -- `0xfd` is in front of nine bytes
  obtain ⟨first, tail, rfl, hlength⟩ := hv.length
  obtain rfl : first = 0xfd := by simpa using hhead
  have hnine : 9 = tail.length + 1 := Outcome.ok.inj hlength
  simp only [List.length_cons] at hlen
  omega

theorem ShortVarint.lt {n : Nat} {w : Bytes} (h : ShortVarint n w) : n < 2 ^ 42 := by
  obtain ⟨v, hv, hlen, rfl⟩ := h
  obtain ⟨first, tail, rfl, hlength⟩ := hv.length
  rw [← hv.value]
  refine Nat.lt_of_lt_of_le (Nat.mod_lt _ (Nat.two_pow_pos _)) ?_
  refine Nat.pow_le_pow_right (by decide) ?_
  simp only [List.length_cons] at hlen
  simp only [Wire.varintBits]
  omega

theorem varintByteLength_le_six {first : UInt8} (h : first < 0xfc) {len : Nat}
    (hlength : Wire.varintByteLength first = .ok len) : len ≤ 6 := by
  have hall : ∀ first : UInt8, first < 0xfc → ∃ n : Fin 7,
      Wire.varintByteLength first = .ok n.val :=
    Wire.forall_byte (by decide +kernel)
  obtain ⟨n, hn⟩ := hall first h
  obtain rfl := Outcome.ok.inj (hlength.symm.trans hn)
  omega

/-- The first byte tells how long the varint is, and whether it is there as a whole. -/
theorem StartsShort.cases {b : Bytes} (h : StartsShort b) :
    (∃ n w rest, ShortVarint n w ∧ b = w ++ rest) ∨
      ∀ w rest, b = w ++ rest → ¬IsCode w ∧ ∀ v, ¬Wire.IsVarint v w := by
  by_cases hcode : ∃ w rest v, Wire.IsVarint v w ∧ b = w ++ rest
  · obtain ⟨w, rest, v, hv, rfl⟩ := hcode
    refine .inl ⟨v.toNat, w, rest, ⟨v, hv, ?_, rfl⟩, rfl⟩
    obtain ⟨first, tail, rfl, hlength⟩ := hv.length
    exact varintByteLength_le_six (h first _ rfl) hlength
  · refine .inr fun w rest heq => ⟨fun hw => ?_, fun v hv => hcode ⟨w, rest, v, hv, heq⟩⟩
    obtain ⟨⟨v, hv⟩, -⟩ := isCode_iff.mp hw
    exact hcode ⟨w, rest, v, hv, heq⟩

theorem ShortVarint.unique {m n : Nat} {w w' r r' : Bytes} (h : ShortVarint m w)
    (h' : ShortVarint n w') (heq : w ++ r = w' ++ r') : m = n ∧ w = w' ∧ r = r' := by
  obtain ⟨rfl, rfl⟩ := h.isCode.append_inj h'.isCode heq
  exact ⟨h.numberOf.symm.trans h'.numberOf, rfl, rfl⟩

theorem StartsShort.of_isVarint {w rest : Bytes} (h : StartsShort (w ++ rest)) {v : UInt64}
    (hv : Wire.IsVarint v w) : ShortVarint v.toNat w := by
  refine ⟨v, hv, ?_, rfl⟩
  obtain ⟨first, tail, rfl, hlength⟩ := hv.length
  exact varintByteLength_le_six (h first _ rfl) hlength

theorem StartsShort.of_isCode {w rest : Bytes} (h : StartsShort (w ++ rest)) (hw : IsCode w) :
    ShortVarint (numberOf w) w := by
  obtain ⟨⟨v, hv⟩, -⟩ := isCode_iff.mp hw
  have hshort := h.of_isVarint hv
  rwa [hshort.numberOf]

/-- A short varint is the same word to both sides. -/
theorem StartsShort.isVarint_iff {w rest : Bytes} (h : StartsShort (w ++ rest)) {n : UInt64} :
    Wire.IsVarint n w ↔ IsCode w ∧ numberOf w = n.toNat := by
  constructor
  · intro hv
    have hshort := h.of_isVarint hv
    exact ⟨hshort.isCode, hshort.numberOf⟩
  · rintro ⟨hw, hnumber⟩
    obtain ⟨v, hv, -, heq⟩ := h.of_isCode hw
    rw [hnumber, UInt64.toNat_inj] at heq
    rwa [← heq]

/-! ### Safe integers -/

/-- What the browser writes for `v` it reads as `v`, to the last byte; and up to six bytes are those
that the relay writes. -/
structure RoundTrips (v : Nat) : Prop where
  readBack : decodeVarint (encodeVarint v) 0 = .ok (v, (encodeVarint v).length)
  sameBytes : v < 2 ^ 42 → encodeVarint v = Wire.encodeVarint v.toUInt64

/-- A safe integer of more than 42 bits needs eight bytes.  The prefix and 53 bits behind it do not
fit a double, and the prefix is taken off last. -/
theorem roundTrips_iff {v : Nat} (h : v < 2 ^ 53) : RoundTrips v ↔ v < 2 ^ 42 ∨ v % 2048 = 0 := by
  have hnat : v.toUInt64.toNat = v := UInt64.toNat_ofNat_of_lt' (show v < 2 ^ 64 by omega)
  have hencode : encodeVarint v = Wire.encodeVarint v.toUInt64 := by
    have heq := encodeVarint_eq (v := v.toUInt64) (by omega)
    rwa [hnat] at heq
  have hdecode := decodeVarint_code (isCode_encode v.toUInt64) [] []
  rw [List.append_nil, List.nil_append, List.length_nil, ← hencode] at hdecode
  have hnumber : numberOf (encodeVarint v) = v ↔ v < 2 ^ 42 ∨ v % 2048 = 0 := by
    have hiff := numberOf_encode_iff (v := v.toUInt64)
    rw [← hencode, hnat, Readable, hnat] at hiff
    rw [hiff]
    omega
  rw [← hnumber]
  constructor
  · rintro ⟨hread, -⟩
    have heq := Outcome.ok.inj (hdecode.symm.trans hread)
    exact (Prod.mk.inj heq).1
  · intro hv
    rw [hv] at hdecode
    exact ⟨hdecode, fun _ => hencode⟩

/-- The first number of eight bytes. -/
theorem roundTrips_eightBytes : RoundTrips (2 ^ 42) :=
  (roundTrips_iff (by decide)).mpr (.inr (by decide))

/-- The number behind it is read as the one in front of it. -/
theorem not_roundTrips_eightBytes : ¬∀ v : Nat, v < 2 ^ 53 → RoundTrips v := by
  intro h
  have hread : decodeVarint (encodeVarint (2 ^ 42 + 1 : Nat)) 0 = .ok (2 ^ 42, 8) := by
    decide +kernel
  have heq := Outcome.ok.inj (hread.symm.trans (h (2 ^ 42 + 1) (by decide)).readBack)
  exact absurd (Prod.mk.inj heq).1 (by decide)

end Moqt.Web
