import Moqt.Wire.Written

/-! The code of variable-length integers as its documentation has it: a table of prefixes, in which
`1111110` is missing.  The encoder and the decoder are held to the table. -/

namespace Moqt.Wire

open Library

/-! ### Round trips -/

/-- The lengths of encodings; there is none of 7 bytes. -/
def varintLengths : List Nat := [1, 2, 3, 4, 5, 6, 8, 9]

theorem IsVarint.length_mem {v : UInt64} {b : Bytes} (h : IsVarint v b) :
    b.length ∈ varintLengths := by
  obtain ⟨first, tail, rfl, hlength⟩ := h.length
  exact varintByteLength_mem hlength

/-- What is written is read back, whatever follows it; no encoding is in front of another; and what
is accepted is no shorter than what is written for its value. -/
theorem varint_roundTrip_minimal :
    (∀ v rest, decodeVarint.Returns (encodeVarint v ++ rest) v rest) ∧
      (∀ v v', encodeVarint v <+: encodeVarint v' → v = v') ∧
      ∀ b v rest, decodeVarint.Returns b v rest → ∃ taken, b = taken ++ rest ∧
        (encodeVarint v).length ≤ taken.length ∧ taken.length ∈ varintLengths ∧
          (encodeVarint v).length ∈ varintLengths := by
  refine ⟨decodeVarint_encode, ?_, ?_⟩
  · rintro v v' ⟨rest, heq⟩
    rw [← List.append_nil (encodeVarint v')] at heq
    exact ((isVarint_encode v).append_inj (isVarint_encode v') heq).1
  · intro b v rest h
    obtain ⟨taken, htaken, rfl⟩ := returns_decodeVarint_iff.mp h
    exact ⟨taken, rfl, length_encodeVarint_le htaken, htaken.length_mem,
      (isVarint_encode v).length_mem⟩

/-! ### The table -/

/-- A row of the table: the prefix, the number of its bits, and the number of bytes. -/
structure EncodingRow where
  prefixBits : Nat
  prefixLength : Nat
  byteCount : Nat
deriving DecidableEq, Repr

namespace EncodingRow

def usableBits (row : EncodingRow) : Nat := 8 * row.byteCount - row.prefixLength

/-- The byte starts with the bits of the prefix. -/
def Starts (row : EncodingRow) (first : UInt8) : Prop :=
  first.toNat / 2 ^ (8 - row.prefixLength) = row.prefixBits

instance (row : EncodingRow) (first : UInt8) : Decidable (row.Starts first) :=
  inferInstanceAs (Decidable (_ = _))

end EncodingRow

def encodingTable : List EncodingRow := [
  ⟨0b0, 1, 1⟩,
  ⟨0b10, 2, 2⟩,
  ⟨0b110, 3, 3⟩,
  ⟨0b1110, 4, 4⟩,
  ⟨0b11110, 5, 5⟩,
  ⟨0b111110, 6, 6⟩,
  ⟨0b11111110, 8, 8⟩,
  ⟨0b11111111, 8, 9⟩]

example : encodingTable.map EncodingRow.usableBits = [7, 14, 21, 28, 35, 42, 56, 64] := by decide

theorem exists_row : ∀ first : UInt8, first ≠ 0xfc → first ≠ 0xfd →
    ∃ row ∈ encodingTable, row.Starts first :=
  forall_byte (by decide +kernel)

/-- The functions that tell lengths and masks from a first byte agree with the table. -/
theorem byteLength_of_row : ∀ first : UInt8, ∀ row ∈ encodingTable, row.Starts first →
    varintByteLength first = .ok row.byteCount ∧ row.usableBits = varintBits row.byteCount :=
  forall_byte (by decide +kernel)

theorem byteLength_err_iff {first : UInt8} :
    (∃ m, varintByteLength first = .err m) ↔ first = 0xfc := by
  constructor
  · rintro ⟨m, h⟩
    unfold varintByteLength at h
    repeat' split at h
    all_goals first
      | cases h; done
      | exact beq_iff_eq.mp ‹_›
  · rintro rfl
    exact ⟨_, rfl⟩

/-! ### The decoder and the table -/

theorem decodeVarint_restores : decodeVarint.Restores :=
  .bind (.ensureLen _ _) fun _ => .bind .first fun first => .bind (varintPrefix_peeks first)
    fun _ => .bind (.ensureLen _ _) fun _ => .bind (.slice _) fun bytes =>
      .bind (.forEach (fun _ _ => .pure _) bytes _) fun _ => .advance _ _

/-- The decoder accepts the bytes that the table has an encoding for in front, and takes that off as
the number that the bits behind the prefix stand for; otherwise it fails and leaves the slice.
`varint_byte_length` fails for the first bytes that are not in the table. -/
structure DecodesByTable (b : Bytes) : Prop where
  accepted_iff : (∃ v rest, decodeVarint.Returns b v rest) ↔ ∃ first tail row, b = first :: tail ∧
    first ≠ 0xfc ∧ first ≠ 0xfd ∧ row ∈ encodingTable ∧ row.Starts first ∧ row.byteCount ≤ b.length
  value : ∀ first tail row v rest, b = first :: tail → row ∈ encodingTable → row.Starts first →
    decodeVarint.Returns b v rest → varintByteLength first = .ok row.byteCount ∧
      rest = b.drop row.byteCount ∧
      v.toNat = bigEndian (b.take row.byteCount) % 2 ^ row.usableBits
  refused : (¬∃ v rest, decodeVarint.Returns b v rest) →
    (∃ m, (decodeVarint b).outcome = .err m) ∧ (decodeVarint b).rest = b
  byteLength : ∀ first tail, b = first :: tail →
    ((∃ m, varintByteLength first = .err m) ↔ first = 0xfc ∨ first = 0xfd)

/-- As many bytes as the first one stands for are taken off. -/
theorem exists_returns_of_byteLength {first : UInt8} {tail : Bytes} {len : Nat}
    (h : varintByteLength first = .ok len) (hle : len ≤ (first :: tail).length) :
    ∃ v, IsVarint v ((first :: tail).take len) ∧
      decodeVarint.Returns (first :: tail) v ((first :: tail).drop len) := by
  obtain ⟨n, rfl⟩ := Nat.exists_eq_add_of_le' (varintBits_le h).1
  have hn : (tail.take n).length = n := List.length_take_of_le (by simpa using hle)
  have hwhole : varintByteLength first = .ok ((tail.take n).length + 1) := by rwa [hn]
  obtain ⟨v, hv⟩ := exists_isVarint hwhole
  refine ⟨v, hv, ?_⟩
  have hreturns := hv.returns (tail.drop n)
  rwa [List.cons_append, List.take_append_drop] at hreturns

theorem accepted_iff_table {first : UInt8} {tail : Bytes} (hfd : first ≠ 0xfd) :
    (∃ v rest, decodeVarint.Returns (first :: tail) v rest) ↔ first ≠ 0xfc ∧
      ∃ row ∈ encodingTable, row.Starts first ∧ row.byteCount ≤ (first :: tail).length := by
  constructor
  · rintro ⟨v, rest, hreturns⟩
    obtain ⟨_, _, len, heq, hlength, hle, -⟩ := decodeVarint_splits hreturns
    obtain ⟨rfl, rfl⟩ := List.cons.inj heq
    have hfc : first ≠ 0xfc := by
      rintro rfl
      cases hlength
    obtain ⟨row, hrow, hstarts⟩ := exists_row first hfc hfd
    obtain rfl := Outcome.ok.inj (hlength.symm.trans (byteLength_of_row first row hrow hstarts).1)
    exact ⟨hfc, row, hrow, hstarts, hle⟩
  · rintro ⟨-, row, hrow, hstarts, hle⟩
    obtain ⟨v, -, hreturns⟩ :=
      exists_returns_of_byteLength (byteLength_of_row first row hrow hstarts).1 hle
    exact ⟨v, _, hreturns⟩

/-- What is taken off, and for which number, is what the table says. -/
theorem value_of_row {first : UInt8} {tail rest : Bytes} {row : EncodingRow} {v : UInt64}
    (hrow : row ∈ encodingTable) (hstarts : row.Starts first)
    (h : decodeVarint.Returns (first :: tail) v rest) :
    rest = (first :: tail).drop row.byteCount ∧
      v.toNat = bigEndian ((first :: tail).take row.byteCount) % 2 ^ row.usableBits := by
  obtain ⟨hlength, hbits⟩ := byteLength_of_row first row hrow hstarts
  obtain ⟨_, _, len, heq, hlen, hle, -⟩ := decodeVarint_splits h
  obtain ⟨rfl, rfl⟩ := List.cons.inj heq
  obtain rfl := Outcome.ok.inj (hlen.symm.trans hlength)
  obtain ⟨v', hv', hreturns⟩ := exists_returns_of_byteLength hlength hle
  obtain ⟨rfl, rfl⟩ := h.unique hreturns
  refine ⟨rfl, ?_⟩
  obtain ⟨n, hn⟩ := Nat.exists_eq_add_of_le' (varintBits_le hlength).1
  have htake : ((first :: tail).take row.byteCount).length = row.byteCount :=
    List.length_take_of_le hle
  rw [hn, List.take_succ_cons] at hv' htake ⊢
  rw [← hv'.value, ← List.length_cons, htake, hbits, hn]

/-- The decoder keeps to the table unless the first byte is `0xfd`. -/
theorem decodesByTable_iff (b : Bytes) : DecodesByTable b ↔ b.head? ≠ some 0xfd := by
  constructor
  · intro h hhead
    obtain ⟨tail, rfl⟩ := List.head?_eq_some_iff.mp hhead
    obtain ⟨m, hm⟩ := (h.byteLength 0xfd tail rfl).mpr (.inr rfl)
    cases hm
  · intro hhead
    refine ⟨?_, ?_, ?_, ?_⟩
    · cases b with
      | nil =>
        refine iff_of_false ?_ nofun
        rintro ⟨v, rest, hreturns⟩
        exact absurd (decodeVarint_takes hreturns) (Nat.not_lt_zero _)
      | cons first tail =>
        have hfd : first ≠ 0xfd := by simpa using hhead
        rw [accepted_iff_table hfd]
        constructor
        · rintro ⟨hfc, row, hrow, hstarts, hle⟩
          exact ⟨first, tail, row, rfl, hfc, hfd, hrow, hstarts, hle⟩
        · rintro ⟨_, _, row, heq, hfc, -, hrow, hstarts, hle⟩
          obtain ⟨rfl, rfl⟩ := List.cons.inj heq
          exact ⟨hfc, row, hrow, hstarts, hle⟩
    · rintro first tail row v rest rfl hrow hstarts hreturns
      exact ⟨(byteLength_of_row first row hrow hstarts).1, value_of_row hrow hstarts hreturns⟩
    · intro hrefused
      have hok : (decodeVarint b).outcome.isOk = false := by
        cases houtcome : (decodeVarint b).outcome with
        | ok v => exact absurd ⟨v, _, houtcome, rfl⟩ hrefused
        | err m | panic m => rfl
      refine ⟨?_, decodeVarint_restores b hok⟩
      have hwithin : decodeVarint.Within 0 b.length b := decodeVarint_within (Nat.le_refl _)
      exact Decoder.exists_err_of_not_returns hwithin.noPanic fun v rest hreturns =>
        hrefused ⟨v, rest, hreturns⟩
    · rintro first tail rfl
      have hfd : first ≠ 0xfd := by simpa using hhead
      rw [byteLength_err_iff, or_iff_left hfd]

/-- The bytes of an encoding with a prefix that the table does not have. -/
def reservedPrefix : Bytes := [0xfd, 0, 0, 0, 0, 0, 0, 0, 5]

/-- They are read as the number 5. -/
theorem not_decodesByTable_reservedPrefix : ¬∀ b, DecodesByTable b := by
  intro h
  have hread : decodeVarint.Returns reservedPrefix 5 [] := by decide
  obtain ⟨first, tail, row, heq, -, hfd, -⟩ := (h reservedPrefix).accepted_iff.mp ⟨5, [], hread⟩
  obtain ⟨rfl, -⟩ := List.cons.inj heq
  exact hfd rfl

end Moqt.Wire
