import Moqt.Web.Message
import Moqt.Wire.Grammar

/-! SETUP between the browser client and the relay: the two sides read the same options, but for a
length that runs past the end of the payload and for a type that a double does not hold. -/

namespace Moqt.Web

open Library

structure KeyValuePair where
  typeId : Nat
  value : Value
deriving DecidableEq, Repr

/-- The loop of `decodeKeyValuePairs`.  An iteration reads at least two bytes, so that as much fuel
as there are bytes is not used up. -/
def decodeKeyValuePairsFrom (buf : Bytes) :
    (fuel pos prevType : Nat) → Outcome (List KeyValuePair)
  | 0, _, _ => return []
  | fuel + 1, pos, prevType =>
    if pos < buf.length then do
      let (delta, deltaLen) ← decodeVarint buf pos
      let pos := pos + deltaLen
      let typeId := Double.add prevType delta
      if typeId % 2 == 0 then
        let (value, valLen) ← decodeVarint buf pos
        let pairs ← decodeKeyValuePairsFrom buf fuel (pos + valLen) typeId
        return ⟨typeId, .number value⟩ :: pairs
      else
        let (len, lenBytes) ← decodeVarint buf pos
        let pos := pos + lenBytes
        let pairs ← decodeKeyValuePairsFrom buf fuel (pos + len) typeId
        return ⟨typeId, .bytes (slice buf pos (pos + len))⟩ :: pairs
    else return []

/-- The pairs up to the end of a buffer.  Nothing reads `bytesRead`. -/
def decodeKeyValuePairs (buf : Bytes) (offset : Nat) : Outcome (List KeyValuePair) :=
  decodeKeyValuePairsFrom buf (buf.length - offset) offset 0

structure SetupMessage where
  options : List KeyValuePair
deriving DecidableEq, Repr

def decodeSetup (frame : Bytes) : Outcome SetupMessage := do
  let payload ← expectMessage MSG_SETUP "SETUP (0x2F00)" frame
  let pairs ← decodeKeyValuePairs payload 0
  return ⟨pairs⟩

/-! ### What the browser accepts -/

/-- The bytes of the pairs after one of type `prev`, as the browser reads them: types are added as
doubles, and of a value that is cut off there is what is left. -/
inductive Pairs : (prev : Nat) → Bytes → List KeyValuePair → Prop
  | nil (prev : Nat) : Pairs prev [] []
  | number {prev : Nat} {d v rest : Bytes} {pairs : List KeyValuePair} (hdelta : IsCode d)
      (heven : Double.add prev (numberOf d) % 2 = 0) (hvalue : IsCode v)
      (hrest : Pairs (Double.add prev (numberOf d)) rest pairs) :
      Pairs prev (d ++ (v ++ rest))
        (⟨Double.add prev (numberOf d), .number (numberOf v)⟩ :: pairs)
  | bytes {prev : Nat} {d l tail : Bytes} {pairs : List KeyValuePair} (hdelta : IsCode d)
      (hodd : Double.add prev (numberOf d) % 2 ≠ 0) (hlen : IsCode l)
      (hrest : Pairs (Double.add prev (numberOf d)) (tail.drop (numberOf l)) pairs) :
      Pairs prev (d ++ (l ++ tail))
        (⟨Double.add prev (numberOf d), .bytes (tail.take (numberOf l))⟩ :: pairs)

theorem IsCode.ne_nil {w : Bytes} (h : IsCode w) : w ≠ [] := by
  obtain ⟨first, tail, rfl, -⟩ := h
  simp

/-- A pair whose type is written as `d`. -/
theorem Pairs.append_iff {prev : Nat} {d behind : Bytes} {pairs : List KeyValuePair}
    (hd : IsCode d) :
    Pairs prev (d ++ behind) pairs ↔
      (Double.add prev (numberOf d) % 2 = 0 ∧ ∃ v rest others, IsCode v ∧ behind = v ++ rest ∧
        Pairs (Double.add prev (numberOf d)) rest others ∧
        pairs = ⟨Double.add prev (numberOf d), .number (numberOf v)⟩ :: others) ∨
      (Double.add prev (numberOf d) % 2 ≠ 0 ∧ ∃ l tail others, IsCode l ∧ behind = l ++ tail ∧
        Pairs (Double.add prev (numberOf d)) (tail.drop (numberOf l)) others ∧
        pairs = ⟨Double.add prev (numberOf d), .bytes (tail.take (numberOf l))⟩ :: others) := by
  constructor
  · intro h
    generalize hb : d ++ behind = b at h
    cases h with
    | nil => exact absurd (List.append_eq_nil_iff.mp hb).1 hd.ne_nil
    | number hdelta heven hvalue hrest =>
      obtain ⟨rfl, rfl⟩ := hd.append_inj hdelta hb
      exact .inl ⟨heven, _, _, _, hvalue, rfl, hrest, rfl⟩
    | bytes hdelta hodd hlen hrest =>
      obtain ⟨rfl, rfl⟩ := hd.append_inj hdelta hb
      exact .inr ⟨hodd, _, _, _, hlen, rfl, hrest, rfl⟩
  · rintro (⟨heven, v, rest, others, hv, rfl, hrest, rfl⟩ |
      ⟨hodd, l, tail, others, hl, rfl, hrest, rfl⟩)
    · exact .number hd heven hv hrest
    · exact .bytes hd hodd hl hrest

/-- A pair of an even type. -/
theorem Pairs.number_iff {prev delta value : Nat} {d v rest : Bytes} {pairs : List KeyValuePair}
    (hd : ShortVarint delta d) (hholds : Double.Holds (prev + delta))
    (heven : (prev + delta) % 2 = 0) (hv : ShortVarint value v) :
    Pairs prev (d ++ (v ++ rest)) pairs ↔ ∃ others, Pairs (prev + delta) rest others ∧
      pairs = ⟨prev + delta, .number value⟩ :: others := by
  have htype : Double.add prev delta = prev + delta := hholds
  rw [Pairs.append_iff hd.isCode, hd.numberOf, htype]
  constructor
  · rintro (⟨-, v', rest', others, hv', heq, hrest, rfl⟩ | ⟨hodd, -⟩)
    · obtain ⟨rfl, rfl⟩ := hv.isCode.append_inj hv' heq
      rw [hv.numberOf]
      exact ⟨others, hrest, rfl⟩
    · exact absurd heven hodd
  · rintro ⟨others, hrest, rfl⟩
    exact .inl ⟨heven, v, rest, others, hv.isCode, rfl, hrest, by rw [hv.numberOf]⟩

/-- A pair of an odd type. -/
theorem Pairs.bytes_iff {prev delta len : Nat} {d l tail : Bytes} {pairs : List KeyValuePair}
    (hd : ShortVarint delta d) (hholds : Double.Holds (prev + delta))
    (hodd : (prev + delta) % 2 ≠ 0) (hl : ShortVarint len l) :
    Pairs prev (d ++ (l ++ tail)) pairs ↔ ∃ others, Pairs (prev + delta) (tail.drop len) others ∧
      pairs = ⟨prev + delta, .bytes (tail.take len)⟩ :: others := by
  have htype : Double.add prev delta = prev + delta := hholds
  rw [Pairs.append_iff hd.isCode, hd.numberOf, htype]
  constructor
  · rintro (⟨heven, -⟩ | ⟨-, l', tail', others, hl', heq, hrest, rfl⟩)
    · exact absurd heven hodd
    · obtain ⟨rfl, rfl⟩ := hl.isCode.append_inj hl' heq
      rw [hl.numberOf] at hrest ⊢
      exact ⟨others, hrest, rfl⟩
  · rintro ⟨others, hrest, rfl⟩
    rw [← hl.numberOf] at hrest ⊢
    exact .inr ⟨hodd, l, tail, others, hl.isCode, rfl, hrest, rfl⟩

theorem Pairs.nil_iff {prev : Nat} {pairs : List KeyValuePair} :
    Pairs prev [] pairs ↔ pairs = [] := by
  constructor
  · intro h
    generalize hb : ([] : Bytes) = b at h
    cases h with
    | nil => rfl
    | number hdelta | bytes hdelta =>
      exact absurd (List.append_eq_nil_iff.mp hb.symm).1 hdelta.ne_nil
  · rintro rfl
    exact .nil prev

/-- Nothing is read where no varint starts. -/
theorem Pairs.starts {prev : Nat} {b : Bytes} {pairs : List KeyValuePair} (h : Pairs prev b pairs)
    (hb : b ≠ []) : ∃ d behind, IsCode d ∧ b = d ++ behind := by
  cases h with
  | nil => exact absurd rfl hb
  | number hdelta | bytes hdelta => exact ⟨_, _, hdelta, rfl⟩

theorem decodeKeyValuePairsFrom_end {buf : Bytes} {fuel pos prev : Nat} (h : buf.length ≤ pos) :
    decodeKeyValuePairsFrom buf fuel pos prev = .ok [] := by
  cases fuel with
  | zero => rfl
  | succ fuel => rw [decodeKeyValuePairsFrom, if_neg (Nat.not_lt.mpr h)]; rfl

theorem decodeKeyValuePairsFrom_iff (before : Bytes) {b : Bytes} {fuel prev : Nat}
    {pairs : List KeyValuePair} (hfuel : b.length ≤ fuel) :
    decodeKeyValuePairsFrom (before ++ b) fuel before.length prev = .ok pairs ↔
      Pairs prev b pairs := by
  induction fuel generalizing before b prev pairs with
  | zero =>
    obtain rfl := List.length_eq_zero_iff.mp (Nat.le_zero.mp hfuel)
    rw [Pairs.nil_iff, decodeKeyValuePairsFrom, ok_pure, eq_comm]
  | succ fuel ih =>
    rcases eq_or_ne b [] with rfl | hb
    · rw [decodeKeyValuePairsFrom_end (by simp), Pairs.nil_iff, Outcome.ok.injEq, eq_comm]
    · have hpos := List.length_pos_iff.mpr hb
      have hlt : before.length < (before ++ b).length := by
        rw [List.length_append]
        omega
      -- a position behind a value may be past the end
      have skip {front tail : Bytes} (hfront : tail.length ≤ fuel) (n t : Nat)
          (others : List KeyValuePair) :
          decodeKeyValuePairsFrom (front ++ tail) fuel (front.length + n) t = .ok others ↔
            Pairs t (tail.drop n) others := by
        rcases Nat.le_total n tail.length with hn | hn
        · have htake : (front ++ tail.take n).length = front.length + n := by
            rw [List.length_append, List.length_take_of_le hn]
          have hall : front ++ tail = (front ++ tail.take n) ++ tail.drop n := by
            rw [List.append_assoc, List.take_append_drop]
          rw [hall, ← htake]
          exact ih _ (by rw [List.length_drop]; omega)
        · rw [List.drop_eq_nil_of_le hn, decodeKeyValuePairsFrom_end, Pairs.nil_iff,
            Outcome.ok.injEq, eq_comm]
          rw [List.length_append]
          omega
      rw [decodeKeyValuePairsFrom, if_pos hlt]
      simp only [ok_bind, Prod.exists]
      constructor
      · rintro ⟨_, _, hdelta, h⟩
        obtain ⟨d, behind, rfl, hd, rfl, rfl⟩ := decodeVarint_ok before hdelta
        have hdpos := hd.length_pos
        rw [List.length_append] at hfuel
        rw [← List.append_assoc, ← List.length_append] at h
        refine (Pairs.append_iff hd).mpr ?_
        split at h
        next heven =>
          simp only [ok_bind, ok_pure, Prod.exists] at h
          obtain ⟨_, _, hvalue, others, hloop, rfl⟩ := h
          obtain ⟨v, rest, rfl, hv, rfl, rfl⟩ := decodeVarint_ok (before ++ d) hvalue
          rw [← List.append_assoc, ← List.length_append] at hloop
          rw [List.length_append] at hfuel
          exact .inl
            ⟨by simpa using heven, v, rest, others, hv, rfl, (ih _ (by omega)).mp hloop, rfl⟩
        next hodd =>
          simp only [ok_bind, ok_pure, Prod.exists] at h
          obtain ⟨_, _, hlen, others, hloop, rfl⟩ := h
          obtain ⟨l, tail, rfl, hl, rfl, rfl⟩ := decodeVarint_ok (before ++ d) hlen
          rw [← List.append_assoc, ← List.length_append] at hloop ⊢
          rw [List.length_append] at hfuel
          rw [slice_append]
          exact .inr ⟨by simpa using hodd, l, tail, others, hl, rfl,
            (skip (by omega) _ _ _).mp hloop, rfl⟩
      · intro h
        obtain ⟨d, behind, hd, rfl⟩ := h.starts hb
        have hdpos := hd.length_pos
        rw [List.length_append] at hfuel
        refine ⟨_, _, decodeVarint_code hd before behind, ?_⟩
        rw [← List.append_assoc, ← List.length_append]
        rcases (Pairs.append_iff hd).mp h with ⟨heven, v, rest, others, hv, rfl, hrest, rfl⟩ |
          ⟨hodd, l, tail, others, hl, rfl, hrest, rfl⟩
        · rw [List.length_append] at hfuel
          rw [if_pos (by simpa using heven)]
          simp only [ok_bind, ok_pure, Prod.exists]
          refine ⟨_, _, decodeVarint_code hv (before ++ d) rest, others, ?_, rfl⟩
          rw [← List.append_assoc, ← List.length_append]
          exact (ih _ (by omega)).mpr hrest
        · rw [List.length_append] at hfuel
          rw [if_neg (by simpa using hodd)]
          simp only [ok_bind, ok_pure, Prod.exists]
          refine ⟨_, _, decodeVarint_code hl (before ++ d) tail, others, ?_, ?_⟩
          · rw [← List.append_assoc, ← List.length_append]
            exact (skip (by omega) _ _ _).mpr hrest
          · rw [← List.append_assoc, ← List.length_append, slice_append]

theorem decodeKeyValuePairs_iff {payload : Bytes} {pairs : List KeyValuePair} :
    decodeKeyValuePairs payload 0 = .ok pairs ↔ Pairs 0 payload pairs :=
  decodeKeyValuePairsFrom_iff [] (Nat.le_refl _)

/-! ### Types that doubles hold -/

/-- An option starts at `suffix`, after one of type `last`: the types up to there are held by
doubles, and the values are there as a whole. -/
inductive OptionAt : (prev : Nat) → (payload : Bytes) → (last : Nat) → (suffix : Bytes) → Prop
  | here (prev : Nat) (payload : Bytes) : OptionAt prev payload prev payload
  | number {prev delta value last : Nat} {d v rest suffix : Bytes} (hdelta : ShortVarint delta d)
      (hholds : Double.Holds (prev + delta)) (heven : (prev + delta) % 2 = 0)
      (hvalue : ShortVarint value v) (hrest : OptionAt (prev + delta) rest last suffix) :
      OptionAt prev (d ++ (v ++ rest)) last suffix
  | bytes {prev delta last : Nat} {d l bytes rest suffix : Bytes} (hdelta : ShortVarint delta d)
      (hholds : Double.Holds (prev + delta)) (hodd : (prev + delta) % 2 ≠ 0)
      (hlen : ShortVarint bytes.length l) (hrest : OptionAt (prev + delta) rest last suffix) :
      OptionAt prev (d ++ (l ++ (bytes ++ rest))) last suffix

/-- `n` varints, one after the other. -/
inductive Varints : (n : Nat) → Bytes → Prop
  | nil : Varints 0 []
  | cons {n : Nat} {w rest : Bytes} (hw : IsCode w) (hrest : Varints n rest) :
    Varints (n + 1) (w ++ rest)

/-- The two sides agree on an option behind one of type `last`: its value does not run past the end
if a double holds its type; and if none does, neither side accepts the options that are left.  The
browser takes all of these for options of an even type. -/
def OptionFits (last : Nat) (suffix : Bytes) : Prop :=
  ∀ delta d behind, ShortVarint delta d → suffix = d ++ behind →
    if Double.Holds (last + delta) then
      (last + delta) % 2 ≠ 0 → ∀ len l tail, ShortVarint len l → behind = l ++ tail →
        len ≤ tail.length
    else (¬∃ pairs, Wire.Pairs last.toUInt64 suffix pairs) ∧ ¬∃ n, Varints (2 * n + 1) behind

def OptionsFit (prev : Nat) (payload : Bytes) : Prop :=
  ∀ last suffix, OptionAt prev payload last suffix → OptionFits last suffix

/-- The varints at the start of an option are of one to six bytes. -/
def OptionShort (suffix : Bytes) : Prop :=
  StartsShort suffix ∧
    ∀ delta d behind, ShortVarint delta d → suffix = d ++ behind → StartsShort behind

def OptionsShort (prev : Nat) (payload : Bytes) : Prop :=
  ∀ last suffix, OptionAt prev payload last suffix → OptionShort suffix

/-- The options behind the first one, whose type is written as `d`. -/
theorem OptionAt.cases {prev delta last : Nat} {d behind suffix : Bytes} (hd : ShortVarint delta d)
    (h : OptionAt prev (d ++ behind) last suffix) :
    (last = prev ∧ suffix = d ++ behind) ∨ (Double.Holds (prev + delta) ∧
      (((prev + delta) % 2 = 0 ∧ ∃ value v rest, ShortVarint value v ∧ behind = v ++ rest ∧
          OptionAt (prev + delta) rest last suffix) ∨
        ((prev + delta) % 2 ≠ 0 ∧ ∃ l bytes rest, ShortVarint bytes.length l ∧
          behind = l ++ (bytes ++ rest) ∧ OptionAt (prev + delta) rest last suffix))) := by
  generalize hb : d ++ behind = b at h
  cases h with
  | here => exact .inl ⟨rfl, rfl⟩
  | number hdelta hholds heven hvalue hrest =>
    obtain ⟨rfl, rfl, rfl⟩ := hd.unique hdelta hb
    exact .inr ⟨hholds, .inl ⟨heven, _, _, _, hvalue, rfl, hrest⟩⟩
  | bytes hdelta hholds hodd hlen hrest =>
    obtain ⟨rfl, rfl, rfl⟩ := hd.unique hdelta hb
    exact .inr ⟨hholds, .inr ⟨hodd, _, _, _, hlen, rfl, hrest⟩⟩

/-- Where no varint starts there is no option but the one that is cut off there. -/
theorem OptionAt.of_cut {prev last : Nat} {payload suffix : Bytes}
    (hcut : ∀ w rest, payload = w ++ rest → ¬IsCode w ∧ ∀ v, ¬Wire.IsVarint v w)
    (h : OptionAt prev payload last suffix) : last = prev ∧ suffix = payload := by
  cases h with
  | here => exact ⟨rfl, rfl⟩
  | number hdelta | bytes hdelta => exact absurd hdelta.isCode (hcut _ _ rfl).1

/-! ### Agreement on options -/

/-- The browser's form of an option of the relay. -/
def ofRelay (pair : Wire.KeyValuePair) : KeyValuePair :=
  ⟨pair.typeId.toNat, match pair.value with
    | .varint value => .number value.toNat
    | .bytes value => .bytes value⟩

/-- The two sides accept the bytes behind an option of type `prev` with the same options, or none of
them does. -/
def OptionsAgree (prev : UInt64) (payload : Bytes) : Prop :=
  ∀ pairs, Pairs prev.toNat payload pairs ↔
    ∃ others, Wire.Pairs prev payload others ∧ others.map ofRelay = pairs

/-- Lists with one more element in front agree if they do without it. -/
theorem agree_cons {α β : Type} {A : List α → Prop} {B : List β → Prop} {f : β → α} {a : α} {b : β}
    (hf : f b = a) :
    (∀ xs, (∃ others, A others ∧ xs = a :: others) ↔
        ∃ ys, (∃ others, B others ∧ ys = b :: others) ∧ ys.map f = xs) ↔
      ∀ xs, A xs ↔ ∃ ys, B ys ∧ ys.map f = xs := by
  subst hf
  constructor
  · intro h xs
    constructor
    · intro hxs
      obtain ⟨_, ⟨ys, hys, rfl⟩, heq⟩ := (h (f b :: xs)).mp ⟨xs, hxs, rfl⟩
      exact ⟨ys, hys, (List.cons.inj heq).2⟩
    · rintro ⟨ys, hys, rfl⟩
      obtain ⟨others, hothers, heq⟩ := (h (f b :: ys.map f)).mpr ⟨_, ⟨ys, hys, rfl⟩, rfl⟩
      obtain ⟨-, rfl⟩ := List.cons.inj heq
      exact hothers
  · intro h xs
    constructor
    · rintro ⟨others, hothers, rfl⟩
      obtain ⟨ys, hys, rfl⟩ := (h others).mp hothers
      exact ⟨_, ⟨ys, hys, rfl⟩, rfl⟩
    · rintro ⟨_, ⟨ys, hys, rfl⟩, rfl⟩
      exact ⟨ys.map f, (h _).mpr ⟨ys, hys, rfl⟩, rfl⟩

/-- Neither side accepts bytes that it reads no varint of. -/
theorem agree_of_cut {prev : UInt64} {payload : Bytes}
    (hcut : ∀ w rest, payload = w ++ rest → ¬IsCode w ∧ ∀ v, ¬Wire.IsVarint v w) :
    OptionsAgree prev payload ∧ OptionsFit prev.toNat payload := by
  refine ⟨fun pairs => ?_, ?_⟩
  · rcases eq_or_ne payload [] with rfl | hne
    · rw [Pairs.nil_iff]
      constructor
      · rintro rfl
        exact ⟨[], .nil prev, rfl⟩
      · rintro ⟨others, hothers, rfl⟩
        generalize hb : ([] : Bytes) = b at hothers
        cases hothers with
        | nil => rfl
        | cons hdelta =>
          exact absurd (List.append_eq_nil_iff.mp hb.symm).1 hdelta.ne_nil
    · constructor
      · intro h
        obtain ⟨d, behind, hd, heq⟩ := h.starts hne
        exact absurd hd (hcut d behind heq).1
      · rintro ⟨others, hothers, -⟩
        cases hothers with
        | nil => exact absurd rfl hne
        | cons hdelta => exact absurd hdelta ((hcut _ _ rfl).2 _)
  · intro last suffix h
    obtain ⟨rfl, rfl⟩ := OptionAt.of_cut hcut h
    intro delta d behind hd heq
    exact absurd hd.isCode (hcut d behind heq).1

/-- The sum of a type and a difference of at most six bytes, on the side of the relay. -/
theorem typeId_add {prev delta : UInt64} (h : prev.toNat + delta.toNat < 2 ^ 64) :
    (prev + delta).toNat = prev.toNat + delta.toNat ∧
      ((prev + delta) % 2 = 0 ↔ (prev.toNat + delta.toNat) % 2 = 0) := by
  have hsum : (prev + delta).toNat = prev.toNat + delta.toNat := by
    rw [UInt64.toNat_add, Nat.mod_eq_of_lt h]
  refine ⟨hsum, ?_⟩
  rw [← UInt64.toNat_inj, UInt64.toNat_mod, hsum]
  rfl

/-- A type that a double does not hold is rounded to an even one, and so are all types behind it. -/
theorem exists_pairs_iff {prev : Nat} (hprev : 2 ^ 53 ≤ prev) {b : Bytes} :
    (∃ pairs, Pairs prev b pairs) ↔ ∃ n, Varints (2 * n) b := by
  have hnext {prev : Nat} (h : 2 ^ 53 ≤ prev) (n : Nat) :
      2 ^ 53 ≤ Double.add prev n ∧ Double.add prev n % 2 = 0 :=
    ⟨Double.two_pow_le_round (Nat.le_add_right_of_le h),
      Double.even_round (Nat.le_add_right_of_le h)⟩
  constructor
  · rintro ⟨pairs, h⟩
    induction h with
    | nil => exact ⟨0, .nil⟩
    | number hdelta _ hvalue _ ih =>
      obtain ⟨n, hn⟩ := ih (hnext hprev _).1
      exact ⟨n + 1, .cons hdelta (.cons hvalue hn)⟩
    | bytes _ hodd => exact absurd (hnext hprev _).2 hodd
  · rintro ⟨n, h⟩
    induction n generalizing prev b with
    | zero =>
      generalize hzero : 2 * 0 = k at h
      cases h with
      | nil => exact ⟨[], .nil prev⟩
      | cons => omega
    | succ n ih =>
      generalize hsucc : 2 * (n + 1) = k at h
      cases h with
      | nil => omega
      | @cons k d rest hd hrest =>
        generalize hmid : k = j at hrest
        cases hrest with
        | nil => omega
        | @cons j v rest hv hrest =>
          obtain rfl : j = 2 * n := by omega
          obtain ⟨pairs, hpairs⟩ := ih (hnext hprev (numberOf d)).1 hrest
          exact ⟨_, .number hd (hnext hprev _).2 hv hpairs⟩

/-- Where a type is not held, no option is the same on the two sides. -/
theorem agree_of_not_holds {prev delta : UInt64} {d behind : Bytes} (hd : Wire.IsVarint delta d)
    (hlen : d.length ≤ 6) (hfits : prev.toNat + delta.toNat < 2 ^ 64)
    (hholds : ¬Double.Holds (prev.toNat + delta.toNat)) :
    OptionsAgree prev (d ++ behind) ↔ OptionsFit prev.toNat (d ++ behind) := by
  have hshort : ShortVarint delta.toNat d := ⟨delta, hd, hlen, rfl⟩
  have hlarge : 2 ^ 53 ≤ prev.toNat + delta.toNat :=
    Nat.le_of_not_lt fun hlt => hholds (Double.holds_of_lt hlt)
  have hrounded : 2 ^ 53 ≤ Double.add prev.toNat delta.toNat := Double.two_pow_le_round hlarge
  have heven : Double.add prev.toNat delta.toNat % 2 = 0 := Double.even_round hlarge
  have hbrowser : (∃ pairs, Pairs prev.toNat (d ++ behind) pairs) ↔
      ∃ n, Varints (2 * n + 1) behind := by
    simp only [Pairs.append_iff hshort.isCode, hshort.numberOf]
    constructor
    · rintro ⟨_, ⟨-, v, rest, others, hv, rfl, hrest, -⟩ | ⟨hodd, -⟩⟩
      · obtain ⟨n, hn⟩ := (exists_pairs_iff hrounded).mp ⟨others, hrest⟩
        exact ⟨n, .cons hv hn⟩
      · exact absurd heven hodd
    · rintro ⟨n, h⟩
      cases h with
      | cons hv hrest =>
        obtain ⟨others, hothers⟩ := (exists_pairs_iff hrounded).mpr ⟨n, hrest⟩
        exact ⟨_, .inl ⟨heven, _, _, others, hv, rfl, hothers, rfl⟩⟩
  -- a list that both sides accept would have the exact type in front and the rounded one
  have hdiffer : ∀ pairs others, Pairs prev.toNat (d ++ behind) pairs →
      Wire.Pairs prev (d ++ behind) others → others.map ofRelay ≠ pairs := by
    intro pairs others hpairs hothers heq
    obtain ⟨-, value, _, _, rest, -, -, -, rfl⟩ := (Wire.Pairs.append_iff hd).mp hothers
    have htype := (typeId_add hfits).1
    rw [Pairs.append_iff hshort.isCode, hshort.numberOf] at hpairs
    have hhead : (ofRelay ⟨prev + delta, value⟩).typeId = Double.add prev.toNat delta.toNat := by
      rcases hpairs with ⟨-, _, _, _, -, -, -, rfl⟩ | ⟨-, _, _, _, -, -, -, rfl⟩
      · rw [List.map_cons] at heq
        rw [(List.cons.inj heq).1]
      · rw [List.map_cons] at heq
        rw [(List.cons.inj heq).1]
    exact hholds (hhead.symm.trans htype)
  have hfit : OptionsFit prev.toNat (d ++ behind) ↔
      (¬∃ pairs, Wire.Pairs prev (d ++ behind) pairs) ∧ ¬∃ n, Varints (2 * n + 1) behind := by
    constructor
    · intro h
      have hhere := h _ _ (.here _ _) delta.toNat d behind hshort rfl
      rw [if_neg hholds, Nat.toUInt64, UInt64.ofNat_toNat] at hhere
      exact hhere
    · intro h last suffix hat
      rcases OptionAt.cases hshort hat with ⟨rfl, rfl⟩ | ⟨hheld, -⟩
      · intro delta' d' behind' hd' heq
        obtain ⟨rfl, rfl, rfl⟩ := hshort.unique hd' heq
        rw [if_neg hholds, Nat.toUInt64, UInt64.ofNat_toNat]
        exact h
      · exact absurd hheld hholds
  rw [hfit, ← hbrowser]
  constructor
  · intro h
    refine ⟨fun ⟨others, hothers⟩ => ?_, fun ⟨pairs, hpairs⟩ => ?_⟩
    · exact hdiffer _ others ((h _).mpr ⟨others, hothers, rfl⟩) hothers rfl
    · obtain ⟨others, hothers, heq⟩ := (h pairs).mp hpairs
      exact hdiffer pairs others hpairs hothers heq
  · rintro ⟨hrelay, hnone⟩ pairs
    constructor
    · exact fun hpairs => absurd ⟨pairs, hpairs⟩ hnone
    · exact fun ⟨others, hothers, _⟩ => absurd ⟨others, hothers⟩ hrelay

/-- Behind a whole option the two sides agree as they do with it in front. -/
theorem agree_number {prev delta value : UInt64} {d v : Bytes} (rest : Bytes)
    (hd : Wire.IsVarint delta d)
    (hdlen : d.length ≤ 6) (hfits : prev.toNat + delta.toNat < 2 ^ 64)
    (hholds : Double.Holds (prev.toNat + delta.toNat))
    (heven : (prev.toNat + delta.toNat) % 2 = 0) (hv : Wire.IsVarint value v)
    (hvlen : v.length ≤ 6) :
    (OptionsAgree prev (d ++ (v ++ rest)) ↔ OptionsAgree (prev + delta) rest) ∧
      (OptionsFit prev.toNat (d ++ (v ++ rest)) ↔ OptionsFit (prev + delta).toNat rest) := by
  obtain ⟨hsum, hparity⟩ := typeId_add hfits
  have hdelta : ShortVarint delta.toNat d := ⟨delta, hd, hdlen, rfl⟩
  have hvalue : ShortVarint value.toNat v := ⟨value, hv, hvlen, rfl⟩
  constructor
  · unfold OptionsAgree
    simp only [Pairs.number_iff hdelta hholds heven hvalue,
      Wire.Pairs.varint_iff hd hfits (hparity.mpr heven) hv, ← hsum]
    exact agree_cons rfl
  · rw [hsum]
    constructor
    · intro h last suffix hat
      exact h last suffix (.number hdelta hholds heven hvalue hat)
    · intro h last suffix hat
      rcases OptionAt.cases hdelta hat with
        ⟨rfl, rfl⟩ | ⟨-, ⟨-, _, _, _, hw, heq, hrest⟩ | ⟨hodd, -⟩⟩
      · intro delta' d' behind' hd' heq
        obtain ⟨rfl, rfl, rfl⟩ := hdelta.unique hd' heq
        rw [if_pos hholds]
        exact fun hodd => absurd heven hodd
      · obtain ⟨rfl, rfl, rfl⟩ := hvalue.unique hw heq
        exact h last suffix hrest
      · exact absurd heven hodd

theorem agree_bytes {prev delta len : UInt64} {d l tail : Bytes} (hd : Wire.IsVarint delta d)
    (hdlen : d.length ≤ 6) (hfits : prev.toNat + delta.toNat < 2 ^ 64)
    (hholds : Double.Holds (prev.toNat + delta.toNat))
    (hodd : (prev.toNat + delta.toNat) % 2 ≠ 0) (hl : Wire.IsVarint len l) (hllen : l.length ≤ 6)
    (hle : len.toNat ≤ tail.length) (hmax : tail.length ≤ Wire.maxPayload) :
    (OptionsAgree prev (d ++ (l ++ tail)) ↔
        OptionsAgree (prev + delta) (tail.drop len.toNat)) ∧
      (OptionsFit prev.toNat (d ++ (l ++ tail)) ↔
        OptionsFit (prev + delta).toNat (tail.drop len.toNat)) := by
  obtain ⟨hsum, hparity⟩ := typeId_add hfits
  have hdelta : ShortVarint delta.toNat d := ⟨delta, hd, hdlen, rfl⟩
  have hlen : ShortVarint len.toNat l := ⟨len, hl, hllen, rfl⟩
  have hodd' : (prev + delta) % 2 = 1 :=
    (Wire.mod_two_eq _).resolve_left fun heven => hodd (hparity.mp heven)
  have htake := List.length_take_of_le hle
  constructor
  · unfold OptionsAgree
    have hlimit : len.toNat ≤ Wire.MAX_VALUE_LENGTH.toNat := hle.trans hmax
    simp only [Pairs.bytes_iff hdelta hholds hodd hlen, Wire.Pairs.bytes_iff hd hfits hodd' hl, hle,
      hlimit, true_and, ← hsum]
    exact agree_cons rfl
  · rw [hsum]
    constructor
    · intro h last suffix hat
      refine h last suffix ?_
      have hwhole := OptionAt.bytes hdelta hholds hodd (by rwa [htake]) hat
      rwa [List.take_append_drop] at hwhole
    · intro h last suffix hat
      rcases OptionAt.cases hdelta hat with ⟨rfl, rfl⟩ |
        ⟨-, ⟨heven, -⟩ | ⟨-, _, bytes, _, hw, heq, hrest⟩⟩
      · intro delta' d' behind' hd' heq
        obtain ⟨rfl, rfl, rfl⟩ := hdelta.unique hd' heq
        rw [if_pos hholds]
        intro _ len' l' tail' hl' heq'
        obtain ⟨rfl, rfl, rfl⟩ := hlen.unique hl' heq'
        exact hle
      · exact absurd heven hodd
      · obtain ⟨hlength, rfl, rfl⟩ := hlen.unique hw heq
        rw [hlength, List.drop_left] at h
        exact h last suffix hrest

/-- A value that is cut off in its first varint is refused by both sides. -/
theorem agree_of_cut_value {prev delta : UInt64} {d behind : Bytes} (hd : Wire.IsVarint delta d)
    (hdlen : d.length ≤ 6) (hholds : Double.Holds (prev.toNat + delta.toNat))
    (hcut : ∀ w rest, behind = w ++ rest → ¬IsCode w ∧ ∀ v, ¬Wire.IsVarint v w) :
    OptionsAgree prev (d ++ behind) ∧ OptionsFit prev.toNat (d ++ behind) := by
  have hdelta : ShortVarint delta.toNat d := ⟨delta, hd, hdlen, rfl⟩
  refine ⟨fun pairs => iff_of_false ?_ ?_, fun last suffix hat => ?_⟩
  · intro h
    rcases (Pairs.append_iff hdelta.isCode).mp h with ⟨-, v, rest, _, hv, heq, -⟩ |
      ⟨-, l, tail, _, hl, heq, -⟩
    · exact absurd hv (hcut v rest heq).1
    · exact absurd hl (hcut l tail heq).1
  · rintro ⟨others, hothers, -⟩
    obtain ⟨-, value, v, rest, _, hvalue, rfl, -⟩ := (Wire.Pairs.append_iff hd).mp hothers
    obtain ⟨n, w, tail, hw, rfl⟩ := hvalue.starts
    exact absurd hw ((hcut w (tail ++ rest) (List.append_assoc _ _ _)).2 n)
  · rcases OptionAt.cases hdelta hat with ⟨rfl, rfl⟩ |
      ⟨-, ⟨-, _, v, rest, hv, heq, -⟩ | ⟨-, l, bytes, rest, hl, heq, -⟩⟩
    · intro delta' d' behind' hd' heq
      obtain ⟨rfl, rfl, rfl⟩ := hdelta.unique hd' heq
      rw [if_pos hholds]
      intro _ len l tail hl heq'
      exact absurd hl.isCode (hcut l tail heq').1
    · exact absurd hv.isCode (hcut v rest heq).1
    · exact absurd hl.isCode (hcut l _ heq).1

/-- A length that runs past the end is refused by the relay alone. -/
theorem not_agree_of_past_end {prev delta len : UInt64} {d l tail : Bytes}
    (hd : Wire.IsVarint delta d) (hdlen : d.length ≤ 6)
    (hfits : prev.toNat + delta.toNat < 2 ^ 64)
    (hholds : Double.Holds (prev.toNat + delta.toNat))
    (hodd : (prev.toNat + delta.toNat) % 2 ≠ 0) (hl : Wire.IsVarint len l) (hllen : l.length ≤ 6)
    (hlt : tail.length < len.toNat) :
    ¬OptionsAgree prev (d ++ (l ++ tail)) ∧ ¬OptionsFit prev.toNat (d ++ (l ++ tail)) := by
  obtain ⟨hsum, hparity⟩ := typeId_add hfits
  have hdelta : ShortVarint delta.toNat d := ⟨delta, hd, hdlen, rfl⟩
  have hlen : ShortVarint len.toNat l := ⟨len, hl, hllen, rfl⟩
  have hodd' : (prev + delta) % 2 = 1 :=
    (Wire.mod_two_eq _).resolve_left fun heven => hodd (hparity.mp heven)
  constructor
  · intro h
    have hread : Pairs prev.toNat (d ++ (l ++ tail)) _ :=
      (Pairs.bytes_iff hdelta hholds hodd hlen).mpr
        ⟨[], by rw [List.drop_eq_nil_of_le (by omega)]; exact .nil _, rfl⟩
    obtain ⟨others, hothers, -⟩ := (h _).mp hread
    obtain ⟨hle, -⟩ := (Wire.Pairs.bytes_iff hd hfits hodd' hl).mp hothers
    omega
  · intro h
    have hhere := h _ _ (.here _ _) delta.toNat d (l ++ tail) hdelta rfl
    rw [if_pos hholds] at hhere
    have hle := hhere hodd len.toNat l tail hlen rfl
    omega

/-- On payloads whose varints are short the two sides agree exactly if the options fit. -/
theorem optionsAgree_iff {n : Nat} {prev : UInt64} {payload : Bytes} (hn : payload.length ≤ n)
    (hmax : payload.length ≤ Wire.maxPayload)
    (hroom : prev.toNat + 2 ^ 42 * payload.length < 2 ^ 64)
    (hshort : OptionsShort prev.toNat payload) :
    OptionsAgree prev payload ↔ OptionsFit prev.toNat payload := by
  induction n generalizing prev payload with
  | zero =>
    obtain rfl := List.length_eq_zero_iff.mp (Nat.le_zero.mp hn)
    have hcut : ∀ w rest, ([] : Bytes) = w ++ rest → ¬IsCode w ∧ ∀ v, ¬Wire.IsVarint v w := by
      intro w rest heq
      obtain ⟨rfl, -⟩ := List.append_eq_nil_iff.mp heq.symm
      exact ⟨fun h => h.ne_nil rfl, fun v h => h.ne_nil rfl⟩
    obtain ⟨hagree, hfit⟩ := agree_of_cut hcut
    exact iff_of_true hagree hfit
  | succ n ih =>
    obtain ⟨hstart, hvalues⟩ := hshort _ _ (.here _ _)
    rcases hstart.cases with ⟨k, d, behind, hdelta, rfl⟩ | hcut
    · have hvalue := hvalues k d behind hdelta rfl
      have hlt := hdelta.lt
      have hdpos := hdelta.isCode.length_pos
      obtain ⟨delta, hd, hdlen, rfl⟩ := hdelta
      rw [List.length_append] at hn hmax hroom
      have hfits : prev.toNat + delta.toNat < 2 ^ 64 := by omega
      obtain ⟨hsum, -⟩ := typeId_add hfits
      by_cases hholds : Double.Holds (prev.toNat + delta.toNat)
      · rcases hvalue.cases with ⟨k, v, rest, ⟨value, hv, hvlen, rfl⟩, rfl⟩ | hcut
        · have hvpos := List.length_pos_iff.mpr hv.ne_nil
          rw [List.length_append] at hn hmax hroom
          have hshort' : ∀ {rest'}, (∀ last suffix,
              OptionAt (prev.toNat + delta.toNat) rest' last suffix →
                OptionAt prev.toNat (d ++ (v ++ rest)) last suffix) →
              OptionsShort (prev + delta).toNat rest' := by
            intro rest' h last suffix hat
            rw [hsum] at hat
            exact hshort last suffix (h last suffix hat)
          rcases Nat.mod_two_eq_zero_or_one (prev.toNat + delta.toNat) with heven | hodd
          · obtain ⟨hagree, hfit⟩ := agree_number rest hd hdlen hfits hholds heven hv hvlen
            rw [hagree, hfit]
            refine ih (by omega) (by omega) (by omega) (hshort' fun last suffix hat => ?_)
            exact .number ⟨delta, hd, hdlen, rfl⟩ hholds heven ⟨value, hv, hvlen, rfl⟩ hat
          · have hodd : (prev.toNat + delta.toNat) % 2 ≠ 0 := by omega
            rcases Nat.lt_or_ge rest.length value.toNat with hpast | hle
            · obtain ⟨hagree, hfit⟩ := not_agree_of_past_end hd hdlen hfits hholds hodd hv hvlen
                hpast
              exact iff_of_false hagree hfit
            · obtain ⟨hagree, hfit⟩ := agree_bytes hd hdlen hfits hholds hodd hv hvlen hle
                (by omega)
              have hdrop : (rest.drop value.toNat).length ≤ rest.length := by
                rw [List.length_drop]
                omega
              rw [hagree, hfit]
              refine ih (by omega) (by omega) (by omega) (hshort' fun last suffix hat => ?_)
              have htake := List.length_take_of_le hle
              have hwhole := OptionAt.bytes ⟨delta, hd, hdlen, rfl⟩ hholds hodd
                (show ShortVarint (rest.take value.toNat).length v from
                  ⟨value, hv, hvlen, htake.symm⟩) hat
              rwa [List.take_append_drop] at hwhole
        · obtain ⟨hagree, hfit⟩ := agree_of_cut_value hd hdlen hholds hcut
          exact iff_of_true hagree hfit
      · exact agree_of_not_holds hd hdlen hfits hholds
    · obtain ⟨hagree, hfit⟩ := agree_of_cut hcut
      exact iff_of_true hagree hfit

/-! ### Agreement on SETUP -/

/-- The browser accepts the bytes as a complete SETUP with these options. -/
def AcceptsSetup (frame : Bytes) (options : List KeyValuePair) : Prop :=
  decodeSetup frame = .ok ⟨options⟩ ∧
    ∃ msgType payload, decodeMessage frame 0 = .ok (msgType, payload, frame.length)

/-- The relay does. -/
def RelayAcceptsSetup (frame : Bytes) (options : List KeyValuePair) : Prop :=
  ∃ m, Wire.SetupMessage.decode.Returns frame m [] ∧
    m.setupOptions.map (fun o => ofRelay o.toKeyValuePair) = options

/-- The two sides accept a frame with the same options, or none of them does. -/
def SetupAgrees (frame : Bytes) : Prop :=
  ∀ options, AcceptsSetup frame options ↔ RelayAcceptsSetup frame options

/-- The options of the frame fit, if it is a complete SETUP. -/
def SetupFits (frame : Bytes) : Prop :=
  ∀ w payload, IsFrame w payload [] frame → numberOf w = MSG_SETUP → OptionsFit 0 payload

/-- The varints of the frame that the two sides read at the same place are short. -/
def SetupShort (frame : Bytes) : Prop :=
  StartsShort frame ∧ ∀ w payload rest, IsFrame w payload rest frame → numberOf w = MSG_SETUP →
    OptionsShort 0 payload

theorem IsFrame.unique {w w' payload payload' rest rest' frame : Bytes}
    (h : IsFrame w payload rest frame) (h' : IsFrame w' payload' rest' frame) :
    w = w' ∧ payload = payload' ∧ rest = rest' := by
  obtain ⟨hw, high, low, hlen, rfl⟩ := h
  obtain ⟨hw', high', low', hlen', heq⟩ := h'
  obtain ⟨rfl, htail⟩ := hw.append_inj hw' heq
  simp only [List.cons.injEq] at htail
  obtain ⟨rfl, rfl, hbytes⟩ := htail
  obtain ⟨rfl, rfl⟩ := List.append_inj hbytes (hlen.symm.trans hlen')
  exact ⟨rfl, rfl, rfl⟩

theorem IsFrame.length_le {w payload rest frame : Bytes} (h : IsFrame w payload rest frame) :
    payload.length ≤ Wire.maxPayload := by
  obtain ⟨-, high, low, hlen, -⟩ := h
  have hhigh := high.toNat_lt
  have hlow := low.toNat_lt
  unfold Wire.maxPayload
  omega

theorem IsFrame.length {w payload rest frame : Bytes} (h : IsFrame w payload rest frame) :
    frame.length = w.length + 2 + payload.length + rest.length := by
  obtain ⟨-, high, low, -, rfl⟩ := h
  simp only [List.length_append, List.length_cons]
  omega

/-- The two sides find the same payload in a frame. -/
theorem decodeMessage_wire_iff {frame payload rest : Bytes} (h : StartsShort frame)
    {msgType : UInt64} :
    Wire.decodeMessage.Returns frame (msgType, payload) rest ↔
      ∃ w, IsFrame w payload rest frame ∧ numberOf w = msgType.toNat := by
  rw [Wire.decodeMessage_iff]
  constructor
  · rintro ⟨w, high, low, hw, hlen, rfl⟩
    obtain ⟨hcode, hnumber⟩ := h.isVarint_iff.mp hw
    exact ⟨w, ⟨hcode, high, low, hlen, rfl⟩, hnumber⟩
  · rintro ⟨w, ⟨hcode, high, low, hlen, rfl⟩, hnumber⟩
    exact ⟨w, high, low, h.isVarint_iff.mpr ⟨hcode, hnumber⟩, hlen, rfl⟩

/-- A frame is complete if its message ends where the bytes end. -/
theorem complete_iff {frame payload : Bytes} {expected : Nat} {name : String} :
    (expectMessage expected name frame = .ok payload ∧
        ∃ msgType payload, decodeMessage frame 0 = .ok (msgType, payload, frame.length)) ↔
      ∃ w, IsFrame w payload [] frame ∧ numberOf w = expected := by
  simp only [expectMessage_iff, decodeMessage_iff]
  constructor
  · rintro ⟨⟨w, rest, hframe, hnumber⟩, _, _, w', rest', hframe', -, hlength⟩
    obtain ⟨rfl, rfl, rfl⟩ := hframe.unique hframe'
    rw [hframe.length] at hlength
    obtain rfl := List.length_eq_zero_iff.mp (show rest.length = 0 by omega)
    exact ⟨w, hframe, hnumber⟩
  · rintro ⟨w, hframe, hnumber⟩
    exact ⟨⟨w, [], hframe, hnumber⟩, _, payload, w, [], hframe, rfl, hframe.length⟩

theorem acceptsSetup_iff {frame : Bytes} {options : List KeyValuePair} :
    AcceptsSetup frame options ↔
      ∃ w payload, IsFrame w payload [] frame ∧ numberOf w = MSG_SETUP ∧
        Pairs 0 payload options := by
  simp only [AcceptsSetup, decodeSetup, ok_bind, ok_pure, SetupMessage.mk.injEq,
    decodeKeyValuePairs_iff]
  constructor
  · rintro ⟨⟨payload, hexpect, pairs, hpairs, rfl⟩, hcomplete⟩
    obtain ⟨w, hframe, hnumber⟩ := complete_iff.mp ⟨hexpect, hcomplete⟩
    exact ⟨w, payload, hframe, hnumber, hpairs⟩
  · rintro ⟨w, payload, hframe, hnumber, hpairs⟩
    obtain ⟨hexpect, hcomplete⟩ := complete_iff.mpr ⟨w, hframe, hnumber⟩
    exact ⟨⟨payload, hexpect, options, hpairs, rfl⟩, hcomplete⟩

theorem relayAcceptsSetup_iff {frame : Bytes} (h : StartsShort frame)
    {options : List KeyValuePair} :
    RelayAcceptsSetup frame options ↔
      ∃ w payload, IsFrame w payload [] frame ∧ numberOf w = MSG_SETUP ∧
        ∃ pairs, Wire.Pairs 0 payload pairs ∧ pairs.map ofRelay = options := by
  constructor
  · rintro ⟨m, hm, rfl⟩
    obtain ⟨payload, left, hmessage, hfields⟩ := Wire.payload_of_decodeFrame hm
    obtain ⟨w, hframe, hnumber⟩ := (decodeMessage_wire_iff h).mp hmessage
    simp only [Decoder.returns_bind, Decoder.returns_pure, Wire.decodeKeyValuePairs_iff] at hfields
    obtain ⟨pairs, _, ⟨hpairs, rfl⟩, rfl, rfl⟩ := hfields
    refine ⟨w, payload, hframe, hnumber, pairs, hpairs, ?_⟩
    simp only [List.map_map, Function.comp_def,
      Wire.toKeyValuePair_ofKeyValuePair]
  · rintro ⟨w, payload, hframe, hnumber, pairs, hpairs, rfl⟩
    have hmessage : Wire.decodeMessage.Returns frame (Wire.MSG_SETUP, payload) [] :=
      (decodeMessage_wire_iff h).mpr ⟨w, hframe, hnumber⟩
    refine ⟨⟨pairs.map Wire.SetupOption.ofKeyValuePair⟩, ?_, ?_⟩
    · refine Decoder.returns_bind.mpr ⟨_, [], hmessage, Decoder.returns_bind.mpr
        ⟨(), [], Decoder.returns_ensure.mpr ⟨by decide, rfl⟩, Decoder.returns_bind.mpr
          ⟨(_, []), [], Decoder.returns_onSlice.mpr ⟨Decoder.returns_bind.mpr
            ⟨pairs, [], Wire.decodeKeyValuePairs_iff.mpr ⟨hpairs, rfl⟩,
              Decoder.returns_pure.mpr ⟨rfl, rfl⟩⟩, rfl⟩, Decoder.returns_pure.mpr ⟨rfl, rfl⟩⟩⟩⟩
    · simp only [List.map_map, Function.comp_def,
      Wire.toKeyValuePair_ofKeyValuePair]

/-- The two sides agree on a frame exactly if its options fit. -/
theorem setupAgrees_iff {frame : Bytes} (h : SetupShort frame) :
    SetupAgrees frame ↔ SetupFits frame := by
  obtain ⟨hstart, hoptions⟩ := h
  unfold SetupAgrees SetupFits
  simp only [acceptsSetup_iff, relayAcceptsSetup_iff hstart]
  by_cases hsetup : ∃ w payload, IsFrame w payload [] frame ∧ numberOf w = MSG_SETUP
  · obtain ⟨w, payload, hframe, hnumber⟩ := hsetup
    have hmax := hframe.length_le
    have hagree : OptionsAgree 0 payload ↔ OptionsFit 0 payload := by
      refine optionsAgree_iff (Nat.le_refl _) hmax ?_ (hoptions w payload [] hframe hnumber)
      unfold Wire.maxPayload at hmax
      rw [UInt64.toNat_zero]
      omega
    have hpayload : ∀ {Q : Bytes → Prop}, (∃ w payload, IsFrame w payload [] frame ∧
        numberOf w = MSG_SETUP ∧ Q payload) ↔ Q payload := by
      intro Q
      constructor
      · rintro ⟨w', payload', hframe', -, hq⟩
        obtain ⟨-, rfl, -⟩ := hframe.unique hframe'
        exact hq
      · exact fun hq => ⟨w, payload, hframe, hnumber, hq⟩
    simp only [hpayload]
    refine hagree.trans ⟨fun hfit w' payload' hframe' _ => ?_,
      fun hfit => hfit w payload hframe hnumber⟩
    obtain ⟨-, rfl, -⟩ := hframe.unique hframe'
    exact hfit
  · refine iff_of_true (fun options => iff_of_false ?_ ?_) fun w payload hframe hnumber => ?_
    · exact fun ⟨w, payload, hframe, hnumber, _⟩ => hsetup ⟨w, payload, hframe, hnumber⟩
    · exact fun ⟨w, payload, hframe, hnumber, _⟩ => hsetup ⟨w, payload, hframe, hnumber⟩
    · exact absurd ⟨w, payload, hframe, hnumber⟩ hsetup

end Moqt.Web
