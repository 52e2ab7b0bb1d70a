import Moqt.Library.Chunked
import Moqt.Web.Message

/-! The buffered reader of the browser client.  What it reads is told from the bytes of the stream
and the way in which it ends, however the bytes arrive. -/

namespace Moqt.Web

open Library

namespace StreamReader

/-- The message of what `read` throws on a stream that has been reset. -/
def readError : String := "WebTransportError"

/-- `readExact`.  The flag `done` of the code is left out: a `read` behind the end is `done`
again. -/
def readExact (n : Nat) : ChunkReader Bytes := fun r =>
  let r := r.fill n
  if n ≤ r.buffer.length then
    .ok (r.buffer.take n, { r with buffer := r.buffer.drop n })
  else
    match r.ending with
    | .finished => .err "stream ended before enough bytes"
    | .reset => .err readError

/-- `tryReadExact`, whose `null` is `none`. -/
def tryReadExact (n : Nat) : ChunkReader (Option Bytes) := fun r =>
  let r := r.fill n
  if n ≤ r.buffer.length then
    .ok (some (r.buffer.take n), { r with buffer := r.buffer.drop n })
  else
    match r.ending with
    | .finished =>
      if r.buffer.length = 0 then .ok (none, r) else .err "stream ended with partial data"
    | .reset => .err readError

/-- What `readVarint` and `tryReadVarint` do when they have the first byte. -/
def readVarintFrom (first : Bytes) : ChunkReader (Nat × Bytes) := do
  let len ← ChunkReader.ofOutcome (varintByteLength (first.headD 0))
  if len = 1 then
    let (value, _) ← ChunkReader.ofOutcome (decodeVarint first 0)
    return (value, first)
  else
    let rest ← readExact (len - 1)
    let raw := first ++ rest
    let (value, _) ← ChunkReader.ofOutcome (decodeVarint raw 0)
    return (value, raw)

def readVarint : ChunkReader (Nat × Bytes) := do
  let first ← readExact 1
  readVarintFrom first

def tryReadVarint : ChunkReader (Option (Nat × Bytes)) := do
  match ← tryReadExact 1 with
  | none => return none
  | some first => some <$> readVarintFrom first

def readMessageFrame : ChunkReader Bytes := do
  let (_, typeBytes) ← readVarint
  let lenBytes ← readExact 2
  let payloadLen := byteAt lenBytes 0 <<< 8 ||| byteAt lenBytes 1
  let payload ← readExact payloadLen
  return typeBytes ++ lenBytes ++ payload

/-! ### What is read -/

theorem readExact_ok {n : Nat} {r r' : Chunked} {bytes : Bytes} :
    readExact n r = .ok (bytes, r') ↔ n ≤ (r.fill n).buffer.length ∧
      bytes = (r.fill n).buffer.take n ∧
      r' = { r.fill n with buffer := (r.fill n).buffer.drop n } := by
  simp only [readExact]
  split
  next hle => simp [hle, eq_comm]
  next hshort =>
    simp only [hshort, false_and, iff_false]
    split <;> nofun

theorem readExact_reads (n : Nat) :
    (readExact n).Reads fun bytes w => bytes = w ∧ w.length = n where
  sound := by
    intro r r' bytes h
    obtain ⟨hle, rfl, rfl⟩ := readExact_ok.mp h
    exact ⟨_, ⟨rfl, List.length_take_of_le hle⟩,
      (Chunked.fill_splits n r).trans (Chunked.splits_take n _)⟩
  complete := by
    rintro r bytes w rest ⟨rfl, rfl⟩ hbytes
    have hle : bytes.length ≤ r.bytes.length := by
      rw [hbytes, List.length_append]
      omega
    have hsplit := (Chunked.fill_splits bytes.length r).trans
      (Chunked.splits_take bytes.length (r.fill bytes.length))
    have htake : (r.fill bytes.length).buffer.take bytes.length = bytes := by
      refine (List.append_inj (hsplit.1.symm.trans hbytes) ?_).1
      exact List.length_take_of_le (Chunked.fill_length_iff.mpr hle)
    refine ⟨_, readExact_ok.mpr ⟨Chunked.fill_length_iff.mpr hle, htake.symm, rfl⟩, ?_⟩
    rw [List.nil_append, htake] at hsplit
    exact hsplit

theorem tryReadExact_some {n : Nat} {r r' : Chunked} {bytes : Bytes} :
    tryReadExact n r = .ok (some bytes, r') ↔ readExact n r = .ok (bytes, r') := by
  rw [readExact_ok]
  simp only [tryReadExact]
  split
  next hle => simp [hle, eq_comm]
  next hshort =>
    simp only [hshort, false_and, iff_false]
    split
    · split <;> nofun
    · nofun

/-- Nothing is taken where there is nothing to be read. -/
theorem tryReadExact_none_splits {n : Nat} {r r' : Chunked}
    (h : tryReadExact n r = .ok (none, r')) : r.Splits [] r' := by
  simp only [tryReadExact] at h
  split at h
  · cases h
  · split at h
    · split at h
      · cases h
        exact Chunked.fill_splits n r
      · cases h
    · cases h

/-- There is nothing to be read exactly at the end of a stream. -/
theorem tryReadExact_none {n : Nat} {r : Chunked} (hn : 0 < n) :
    (∃ r', tryReadExact n r = .ok (none, r')) ↔ r.bytes = [] ∧ r.ending = .finished := by
  have hsplit := Chunked.fill_splits n r
  have hiff := Chunked.fill_length_iff (n := n) (r := r)
  simp only [tryReadExact]
  rw [hsplit.2]
  split
  next hle =>
    have hne : r.bytes ≠ [] := by
      intro hnil
      rw [hiff, hnil, List.length_nil] at hle
      omega
    simp [hne]
  next hshort =>
    have hbuffer : (r.fill n).buffer.length = 0 ↔ r.bytes = [] := by
      rw [hsplit.1, List.nil_append, Chunked.bytes]
      rcases Chunked.fillFrom_filled n r.ending r.chunks r.buffer with hfilled | hchunks
      · exact absurd hfilled hshort
      · rw [show (r.fill n).chunks = [] from hchunks]
        simp
    split
    next hending =>
      rw [hending]
      split
      next hempty => simp [hbuffer.mp hempty]
      next hpartial => simp [mt hbuffer.mpr hpartial]
    next hending => simp [hending]

theorem decodeVarint_word {w : Bytes} (hw : IsCode w) :
    decodeVarint w 0 = .ok (numberOf w, w.length) := by
  have h := decodeVarint_code hw [] []
  rwa [List.append_nil] at h

theorem readVarintFrom_reads (first : UInt8) : (readVarintFrom [first]).Reads fun a w =>
    IsCode (first :: w) ∧ a = (numberOf (first :: w), first :: w) := by
  refine ((ChunkReader.Reads.ofOutcome _).bind fun len => .ite
    ((ChunkReader.Reads.ofOutcome _).bind fun _ => .pure _)
    ((readExact_reads _).bind fun _ => (ChunkReader.Reads.ofOutcome _).bind fun _ =>
      .pure _)).congr fun a w => ?_
  rw [List.headD_cons]
  constructor
  · rintro ⟨len, _, _, ⟨hlen, rfl⟩, ⟨rfl, p, _, _, ⟨hp, rfl⟩, ⟨rfl, rfl⟩, rfl⟩ | ⟨hne, tail, _, _,
      ⟨rfl, hlength⟩, ⟨p, _, _, ⟨hp, rfl⟩, ⟨rfl, rfl⟩, rfl⟩, rfl⟩, rfl⟩
    · have hcode : IsCode [first] := ⟨first, [], rfl, hlen⟩
      obtain rfl := Outcome.ok.inj (hp.symm.trans (decodeVarint_word hcode))
      exact ⟨hcode, rfl⟩
    · have hpos := varintByteLength_pos hlen
      have hcode : IsCode ([first] ++ tail) := by
        refine ⟨first, tail, rfl, ?_⟩
        rw [hlength, Nat.sub_add_cancel hpos]
        exact hlen
      obtain rfl := Outcome.ok.inj (hp.symm.trans (decodeVarint_word hcode))
      simpa using hcode
  · rintro ⟨hcode, rfl⟩
    obtain ⟨_, tail, heq, hlen⟩ := id hcode
    obtain ⟨rfl, rfl⟩ := List.cons.inj heq
    refine ⟨_, [], w, ⟨hlen, rfl⟩, ?_, rfl⟩
    cases w with
    | nil => exact .inl ⟨rfl, _, [], [], ⟨decodeVarint_word hcode, rfl⟩, ⟨rfl, rfl⟩, rfl⟩
    | cons second w =>
      exact .inr ⟨by simp, second :: w, second :: w, [], ⟨rfl, rfl⟩,
        ⟨_, [], [], ⟨decodeVarint_word hcode, rfl⟩, ⟨rfl, rfl⟩, rfl⟩, by simp⟩

/-- A varint is taken from the front of the stream. -/
theorem readVarint_reads :
    readVarint.Reads fun a w => IsCode w ∧ a = (numberOf w, w) where
  sound := by
    intro r r' a h
    obtain ⟨first, mid, hfirst, h⟩ := ChunkReader.bind_ok.mp h
    obtain ⟨_, ⟨rfl, hone⟩, hsplit⟩ := (readExact_reads 1).sound hfirst
    obtain ⟨byte, rfl⟩ := List.length_eq_one_iff.mp hone
    obtain ⟨tail, hcode, hsplit'⟩ := (readVarintFrom_reads byte).sound h
    exact ⟨byte :: tail, hcode, hsplit.trans hsplit'⟩
  complete := by
    rintro r a w rest ⟨hcode, rfl⟩ hbytes
    obtain ⟨first, tail, rfl, -⟩ := id hcode
    obtain ⟨mid, hfirst, hsplit⟩ :=
      (readExact_reads 1).complete (w := [first]) ⟨rfl, rfl⟩ hbytes
    have hmid : mid.bytes = tail ++ rest := List.cons.inj (hsplit.1.symm.trans hbytes) |>.2
    obtain ⟨r', h, hsplit'⟩ := (readVarintFrom_reads first).complete ⟨hcode, rfl⟩ hmid
    exact ⟨r', ChunkReader.bind_ok.mpr ⟨[first], mid, hfirst, h⟩, hsplit.trans hsplit'⟩

theorem tryReadVarint_some {r r' : Chunked} {a : Nat × Bytes} :
    tryReadVarint r = .ok (some a, r') ↔ readVarint r = .ok (a, r') := by
  simp only [tryReadVarint, readVarint, ChunkReader.bind_ok]
  constructor
  · rintro ⟨_ | first, mid, hfirst, h⟩
    · simp at h
    · rw [ChunkReader.map_ok] at h
      obtain ⟨a', h, heq⟩ := h
      obtain rfl := Option.some.inj heq
      exact ⟨first, mid, tryReadExact_some.mp hfirst, h⟩
  · rintro ⟨first, mid, hfirst, h⟩
    exact ⟨some first, mid, tryReadExact_some.mpr hfirst, ChunkReader.map_ok.mpr ⟨a, h, rfl⟩⟩

theorem tryReadVarint_none {r : Chunked} :
    (∃ r', tryReadVarint r = .ok (none, r')) ↔ r.bytes = [] ∧ r.ending = .finished := by
  rw [← tryReadExact_none (n := 1) Nat.one_pos]
  simp only [tryReadVarint, ChunkReader.bind_ok]
  constructor
  · rintro ⟨r', _ | first, mid, hfirst, h⟩
    · exact ⟨mid, hfirst⟩
    · rw [ChunkReader.map_ok] at h
      obtain ⟨a, -, hnone⟩ := h
      cases hnone
  · rintro ⟨r', hfirst⟩
    exact ⟨r', none, r', hfirst, ChunkReader.pure_ok.mpr ⟨rfl, rfl⟩⟩

theorem tryReadVarint_none_splits {r r' : Chunked} (h : tryReadVarint r = .ok (none, r')) :
    r.Splits [] r' := by
  obtain ⟨_ | first, mid, hfirst, h⟩ := ChunkReader.bind_ok.mp h
  · obtain ⟨-, rfl⟩ := ChunkReader.pure_ok.mp h
    exact tryReadExact_none_splits hfirst
  · obtain ⟨a, -, hnone⟩ := ChunkReader.map_ok.mp h
    cases hnone

/-- A message is taken from the front of the stream, as the frame that it is. -/
theorem readMessageFrame_reads :
    readMessageFrame.Reads fun frame w => frame = w ∧ ∃ msgType payload,
      IsFrame msgType payload [] frame := by
  refine (readVarint_reads.bind fun a => (readExact_reads 2).bind fun lenBytes =>
    (readExact_reads _).bind fun payload => .pure _).congr fun frame w => ?_
  constructor
  · rintro ⟨_, msgType, _, ⟨hcode, rfl⟩, ⟨lenBytes, _, _, ⟨rfl, htwo⟩, ⟨payload, _, _,
      ⟨rfl, hlength⟩, ⟨rfl, rfl⟩, rfl⟩, rfl⟩, rfl⟩
    obtain ⟨high, low, rfl⟩ := List.length_eq_two.mp htwo
    refine ⟨by simp, msgType, payload, hcode, high, low, ?_, by simp⟩
    rw [hlength, ← shiftLeft_or]
    rfl
  · rintro ⟨rfl, msgType, payload, hcode, high, low, hlength, rfl⟩
    refine ⟨_, msgType, _, ⟨hcode, rfl⟩, ⟨[high, low], _, _, ⟨rfl, rfl⟩, ⟨payload, _, _,
      ⟨rfl, ?_⟩, ⟨by simp, rfl⟩, rfl⟩, rfl⟩, by simp⟩
    rw [← hlength, ← shiftLeft_or]
    rfl

end StreamReader

end Moqt.Web
