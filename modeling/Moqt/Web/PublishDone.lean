import Moqt.Web.Setup

/-! PUBLISH_DONE between the browser client and the relay: the browser has no limit for a reason
phrase, and no check of its length. -/

namespace Moqt.Web

open Library

/-! ### Text -/

def utf8 (s : String) : Bytes := s.toUTF8.data.toList

/-- Text without the byte order mark in front, if there is one. -/
def stripMark (s : String) : String :=
  match s.toList with
  | '\uFEFF' :: chars => String.ofList chars
  | _ => s

/-- `new TextDecoder().decode(bytes)`.  What it puts in place of malformed bytes is left open. -/
def textDecode (replace : Bytes → String) (bytes : Bytes) : String :=
  match String.fromUTF8? ⟨bytes.toArray⟩ with
  | some s => stripMark s
  | none => replace bytes

/-- The bytes are UTF-8 that does not start with a byte order mark. -/
def PlainText (bytes : Bytes) : Prop :=
  ∃ s : String, s.toList.head? ≠ some '\uFEFF' ∧ utf8 s = bytes

theorem fromUTF8_utf8 (s : String) : String.fromUTF8? ⟨(utf8 s).toArray⟩ = some s := by
  have hbytes : (⟨(utf8 s).toArray⟩ : ByteArray) = s.toByteArray := by
    rw [utf8, String.toUTF8_eq_toByteArray, Array.toArray_toList]
  rw [hbytes, String.fromUTF8?, dif_pos s.isValidUTF8]
  rfl

theorem stripMark_of_head {s : String} (h : s.toList.head? ≠ some '\uFEFF') : stripMark s = s := by
  unfold stripMark
  split
  next chars heq => exact absurd (by rw [heq]; rfl) h
  · rfl

/-- Text comes back from its bytes exactly if there is no mark to be stripped. -/
theorem utf8_textDecode_iff {replace : Bytes → String} {bytes : Bytes} :
    utf8 (textDecode replace bytes) = bytes ↔ PlainText bytes := by
  constructor
  · intro h
    refine ⟨textDecode replace bytes, fun hmark => ?_, h⟩
    -- the text is its own decoding, from which a mark would have been stripped
    have hself : textDecode replace bytes = stripMark (textDecode replace bytes) := by
      conv_lhs => rw [← h, textDecode, fromUTF8_utf8]
    obtain ⟨chars, hchars⟩ := List.head?_eq_some_iff.mp hmark
    have hstrip : stripMark (textDecode replace bytes) = String.ofList chars := by
      rw [stripMark, hchars]
      rfl
    have hlength := congrArg (fun s : String => s.toList.length) (hself.trans hstrip)
    simp only [hchars, String.toList_ofList, List.length_cons] at hlength
    omega
  · rintro ⟨s, hmark, rfl⟩
    rw [textDecode, fromUTF8_utf8]
    exact congrArg utf8 (stripMark_of_head hmark)

/-! ### Messages -/

structure PublishDoneMessage where
  statusCode : Nat
  streamCount : Nat
  reasonPhrase : String
deriving DecidableEq, Repr

def decodePublishDone (replace : Bytes → String) (frame : Bytes) : Outcome PublishDoneMessage := do
  let payload ← expectMessage MSG_PUBLISH_DONE "PUBLISH_DONE" frame
  let pos := 0
  let (statusCode, r1) ← decodeVarint payload pos
  let pos := pos + r1
  let (streamCount, r2) ← decodeVarint payload pos
  let pos := pos + r2
  let (reasonLen, r3) ← decodeVarint payload pos
  let pos := pos + r3
  let reasonPhrase := textDecode replace (slice payload pos (pos + reasonLen))
  return { statusCode, streamCount, reasonPhrase }

/-- The browser accepts the bytes as a complete PUBLISH_DONE. -/
def AcceptsDone (replace : Bytes → String) (frame : Bytes) (status count : Nat) (reason : Bytes) :
    Prop :=
  (∃ msg, decodePublishDone replace frame = .ok msg ∧ msg.statusCode = status ∧
    msg.streamCount = count ∧ utf8 msg.reasonPhrase = reason) ∧
    ∃ msgType payload, decodeMessage frame 0 = .ok (msgType, payload, frame.length)

/-- The relay does. -/
def RelayAcceptsDone (frame : Bytes) (status count : Nat) (reason : Bytes) : Prop :=
  ∃ m, Wire.PublishDoneMessage.decode.Returns frame m [] ∧ m.statusCode.toNat = status ∧
    m.streamCount.toNat = count ∧ m.reasonPhrase.value = reason

/-- The two sides accept a frame with the same fields, or none of them does. -/
def DoneAgrees (replace : Bytes → String) (frame : Bytes) : Prop :=
  ∀ status count reason,
    AcceptsDone replace frame status count reason ↔ RelayAcceptsDone frame status count reason

/-- The reason phrase is within the relay's limit and within the payload, and is text. -/
def ReasonFits (payload : Bytes) : Prop :=
  ∀ status count len w1 w2 w3 tail, ShortVarint status w1 → ShortVarint count w2 →
    ShortVarint len w3 → payload = w1 ++ (w2 ++ (w3 ++ tail)) →
      len ≤ Wire.MAX_LENGTH.toNat ∧ len ≤ tail.length ∧ PlainText (tail.take len)

/-- The reason phrase of the frame fits, if it is a complete PUBLISH_DONE. -/
def DoneFits (frame : Bytes) : Prop :=
  ∀ w payload, IsFrame w payload [] frame → numberOf w = MSG_PUBLISH_DONE → ReasonFits payload

/-- The three varints of a payload are short, as far as they are there. -/
def DonePayloadShort (payload : Bytes) : Prop :=
  StartsShort payload ∧ ∀ a w1 r1, ShortVarint a w1 → payload = w1 ++ r1 →
    StartsShort r1 ∧ ∀ b w2 r2, ShortVarint b w2 → r1 = w2 ++ r2 → StartsShort r2

def DoneShort (frame : Bytes) : Prop :=
  StartsShort frame ∧ ∀ w payload rest, IsFrame w payload rest frame →
    numberOf w = MSG_PUBLISH_DONE → DonePayloadShort payload

theorem acceptsDone_iff {replace : Bytes → String} {frame reason : Bytes} {status count : Nat} :
    AcceptsDone replace frame status count reason ↔
      ∃ w payload, IsFrame w payload [] frame ∧ numberOf w = MSG_PUBLISH_DONE ∧
        ∃ w1 w2 w3 tail, IsCode w1 ∧ IsCode w2 ∧ IsCode w3 ∧
          payload = w1 ++ (w2 ++ (w3 ++ tail)) ∧ numberOf w1 = status ∧ numberOf w2 = count ∧
          utf8 (textDecode replace (tail.take (numberOf w3))) = reason := by
  simp only [AcceptsDone, decodePublishDone, ok_bind, ok_pure, Prod.exists, Nat.zero_add]
  constructor
  · rintro ⟨⟨_, ⟨payload, hexpect, _, _, h1, _, _, h2, _, _, h3, rfl⟩, rfl, rfl, rfl⟩, hcomplete⟩
    obtain ⟨w, hframe, hnumber⟩ := complete_iff.mp ⟨hexpect, hcomplete⟩
    obtain ⟨w1, r1, rfl, hw1, rfl, rfl⟩ := decodeVarint_ok [] h1
    obtain ⟨w2, r2, rfl, hw2, rfl, rfl⟩ := decodeVarint_ok w1 h2
    rw [← List.append_assoc, ← List.length_append] at h3 ⊢
    obtain ⟨w3, tail, rfl, hw3, rfl, rfl⟩ := decodeVarint_ok (w1 ++ w2) h3
    refine ⟨w, _, hframe, hnumber, w1, w2, w3, tail, hw1, hw2, hw3, rfl, rfl, rfl, ?_⟩
    rw [← List.append_assoc, ← List.length_append, slice_append]
  · rintro ⟨w, payload, hframe, hnumber, w1, w2, w3, tail, hw1, hw2, hw3, rfl, rfl, rfl, rfl⟩
    obtain ⟨hexpect, hcomplete⟩ := complete_iff.mpr ⟨w, hframe, hnumber⟩
    have h2 := decodeVarint_code hw2 w1 (w3 ++ tail)
    have h3 := decodeVarint_code hw3 (w1 ++ w2) tail
    have hslice := slice_append (w1 ++ w2 ++ w3) tail (numberOf w3)
    simp only [List.append_assoc, List.length_append, ← Nat.add_assoc] at h3 hslice
    refine ⟨⟨_, ⟨_, hexpect, _, _, decodeVarint_code hw1 [] _, _, _, h2, _, _, h3, rfl⟩, rfl, rfl,
      ?_⟩, hcomplete⟩
    rw [hslice]

theorem relayAcceptsDone_iff {frame reason : Bytes} (h : StartsShort frame) {status count : Nat} :
    RelayAcceptsDone frame status count reason ↔
      ∃ w payload, IsFrame w payload [] frame ∧ numberOf w = MSG_PUBLISH_DONE ∧
        ∃ a b len w1 w2 w3 tail, Wire.IsVarint a w1 ∧ Wire.IsVarint b w2 ∧ Wire.IsVarint len w3 ∧
          payload = w1 ++ (w2 ++ (w3 ++ (reason ++ tail))) ∧ a.toNat = status ∧ b.toNat = count ∧
          len.toNat = reason.length ∧ reason.length ≤ Wire.MAX_LENGTH.toNat := by
  constructor
  · rintro ⟨m, hm, rfl, rfl, rfl⟩
    obtain ⟨payload, left, hmessage, hfields⟩ := Wire.payload_of_decodeFrame hm
    obtain ⟨w, hframe, hnumber⟩ := (decodeMessage_wire_iff h).mp hmessage
    simp only [Decoder.returns_bind, Decoder.returns_pure, Wire.returns_decodeVarint_iff,
      Wire.returns_decodeReasonPhrase] at hfields
    obtain ⟨a, _, ⟨w1, hw1, rfl⟩, b, _, ⟨w2, hw2, rfl⟩, rp, tail,
      ⟨hmax, _, ⟨len, w3, hw3, hlen, rfl⟩, rfl⟩, rfl, rfl⟩ := hfields
    refine ⟨w, _, hframe, hnumber, a, b, len, w1, w2, w3, tail, hw1, hw2, hw3, ?_, rfl, rfl, hlen,
      hmax⟩
    rw [List.append_assoc w3]
  · rintro ⟨w, payload, hframe, hnumber, a, b, len, w1, w2, w3, tail, hw1, hw2, hw3, rfl, rfl, rfl,
      hlen, hmax⟩
    have hmessage : Wire.decodeMessage.Returns frame (Wire.MSG_PUBLISH_DONE, _) [] :=
      (decodeMessage_wire_iff h).mpr ⟨w, hframe, hnumber⟩
    refine ⟨⟨a, b, ⟨reason⟩⟩, ?_, rfl, rfl, rfl⟩
    have hreason : Wire.decodeReasonPhrase.Returns (w3 ++ (reason ++ tail)) ⟨reason⟩ tail :=
      Wire.returns_decodeReasonPhrase.mpr ⟨hmax, w3 ++ reason, ⟨len, w3, hw3, hlen, rfl⟩,
        (List.append_assoc _ _ _).symm⟩
    exact Decoder.returns_bind.mpr ⟨_, [], hmessage, Decoder.returns_bind.mpr
      ⟨(), [], Decoder.returns_ensure.mpr ⟨by decide, rfl⟩, Decoder.returns_bind.mpr
        ⟨(_, tail), [], Decoder.returns_onSlice.mpr ⟨Decoder.returns_bind.mpr
          ⟨a, _, hw1.returns _, Decoder.returns_bind.mpr ⟨b, _, hw2.returns _,
            Decoder.returns_bind.mpr
              ⟨⟨reason⟩, tail, hreason, Decoder.returns_pure.mpr ⟨rfl, rfl⟩⟩⟩⟩,
          rfl⟩, Decoder.returns_pure.mpr ⟨rfl, rfl⟩⟩⟩⟩

/-- Three words at the start of a payload, short as they are. -/
structure DoneWords (payload : Bytes) (status count len : Nat) (tail : Bytes) : Prop where
  words : ∃ w1 w2 w3, ShortVarint status w1 ∧ ShortVarint count w2 ∧ ShortVarint len w3 ∧
    payload = w1 ++ (w2 ++ (w3 ++ tail))

theorem DoneWords.unique {payload tail tail' : Bytes} {status status' count count' len len' : Nat}
    (h : DoneWords payload status count len tail)
    (h' : DoneWords payload status' count' len' tail') :
    status = status' ∧ count = count' ∧ len = len' ∧ tail = tail' := by
  obtain ⟨w1, w2, w3, h1, h2, h3, rfl⟩ := h
  obtain ⟨v1, v2, v3, k1, k2, k3, heq⟩ := h'
  obtain ⟨rfl, rfl, heq2⟩ := h1.unique k1 heq
  obtain ⟨rfl, rfl, heq3⟩ := h2.unique k2 heq2
  obtain ⟨rfl, rfl, rfl⟩ := h3.unique k3 heq3
  exact ⟨rfl, rfl, rfl, rfl⟩

theorem DonePayloadShort.words {payload : Bytes} (h : DonePayloadShort payload)
    {w1 w2 w3 tail : Bytes} (heq : payload = w1 ++ (w2 ++ (w3 ++ tail))) :
    ((IsCode w1 ∧ IsCode w2 ∧ IsCode w3) →
      DoneWords payload (numberOf w1) (numberOf w2) (numberOf w3) tail) ∧
    ∀ a b len, Wire.IsVarint a w1 → Wire.IsVarint b w2 → Wire.IsVarint len w3 →
      DoneWords payload a.toNat b.toNat len.toNat tail := by
  subst heq
  obtain ⟨hfirst, hsecond⟩ := h
  constructor
  · rintro ⟨h1, h2, h3⟩
    have k1 := hfirst.of_isCode h1
    obtain ⟨hstart, hthird⟩ := hsecond _ _ _ k1 rfl
    have k2 := hstart.of_isCode h2
    exact ⟨w1, w2, w3, k1, k2, (hthird _ _ _ k2 rfl).of_isCode h3, rfl⟩
  · intro a b len h1 h2 h3
    have k1 := hfirst.of_isVarint h1
    obtain ⟨hstart, hthird⟩ := hsecond _ _ _ k1 rfl
    have k2 := hstart.of_isVarint h2
    exact ⟨w1, w2, w3, k1, k2, (hthird _ _ _ k2 rfl).of_isVarint h3, rfl⟩

/-- The two sides agree on a frame exactly if its reason phrase fits. -/
theorem doneAgrees_iff {replace : Bytes → String} {frame : Bytes} (h : DoneShort frame) :
    DoneAgrees replace frame ↔ DoneFits frame := by
  obtain ⟨hstart, hshort⟩ := h
  unfold DoneAgrees
  simp only [acceptsDone_iff, relayAcceptsDone_iff hstart]
  constructor
  · intro hagree w payload hframe hnumber status count len w1 w2 w3 tail h1 h2 h3 heq
    obtain ⟨w', payload', hframe', -, a, b, len', v1, v2, v3, rest, hv1, hv2, hv3, heq', -, -, hlen,
      hmax⟩ := (hagree (numberOf w1) (numberOf w2) _).mp ⟨w, payload, hframe, hnumber, w1, w2, w3,
        tail, h1.isCode, h2.isCode, h3.isCode, heq, rfl, rfl, rfl⟩
    obtain ⟨-, rfl, -⟩ := hframe.unique hframe'
    have hwords : DoneWords payload status count len tail := ⟨w1, w2, w3, h1, h2, h3, heq⟩
    have hrelay := ((hshort w payload [] hframe hnumber).words heq').2 a b len' hv1 hv2 hv3
    rw [hlen] at hrelay
    obtain ⟨-, -, hlength, htail⟩ := hwords.unique hrelay
    rw [h3.numberOf] at hlength hmax htail
    generalize hreason : utf8 (textDecode replace (tail.take len)) = reason at hlength hmax htail
    subst hlength
    have htake : tail.take reason.length = reason := by rw [htail, List.take_left]
    rw [htake] at hreason ⊢
    refine ⟨hmax, ?_, utf8_textDecode_iff.mp hreason⟩
    rw [htail, List.length_append]
    exact Nat.le_add_right _ _
  · intro hfits status count reason
    constructor
    · rintro ⟨w, payload, hframe, hnumber, w1, w2, w3, tail, h1, h2, h3, heq, rfl, rfl, rfl⟩
      have hpayload := hshort w payload [] hframe hnumber
      obtain ⟨v1, v2, v3, k1, k2, k3, heq'⟩ := (hpayload.words heq).1 ⟨h1, h2, h3⟩
      obtain ⟨hmax, hle, hplain⟩ := hfits w payload hframe hnumber _ _ _ _ _ _ _ k1 k2 k3 heq'
      rw [utf8_textDecode_iff.mpr hplain]
      obtain ⟨a, ha, -, ha'⟩ := k1
      obtain ⟨b, hb, -, hb'⟩ := k2
      obtain ⟨len, hlen, -, hlen'⟩ := k3
      have htake := List.length_take_of_le hle
      refine ⟨w, payload, hframe, hnumber, a, b, len, v1, v2, v3, tail.drop (numberOf w3), ha, hb,
        hlen, ?_, ha', hb', by rw [htake, hlen'], by rwa [htake]⟩
      rw [List.take_append_drop]
      exact heq'
    · rintro ⟨w, payload, hframe, hnumber, a, b, len, w1, w2, w3, tail, h1, h2, h3, heq, rfl, rfl,
        hlen, hmax⟩
      have hpayload := hshort w payload [] hframe hnumber
      obtain ⟨v1, v2, v3, k1, k2, k3, heq'⟩ := (hpayload.words heq).2 a b len h1 h2 h3
      obtain ⟨-, -, hplain⟩ := hfits w payload hframe hnumber _ _ _ _ _ _ _ k1 k2 k3 heq'
      rw [hlen, List.take_left] at hplain
      refine ⟨w, payload, hframe, hnumber, v1, v2, v3, reason ++ tail, k1.isCode, k2.isCode,
        k3.isCode, heq', k1.numberOf, k2.numberOf, ?_⟩
      rw [k3.numberOf, hlen, List.take_left]
      exact utf8_textDecode_iff.mpr hplain

/-! ### Agreement -/

/-- On frames whose varints are of one to six bytes the two sides agree exactly if no length inside
runs past the end, every type of an option is one that a double holds (or what follows is refused by
both), and a reason phrase is text within the limit. -/
theorem frames_agree_iff {replace : Bytes → String} {frame : Bytes} (hsetup : SetupShort frame)
    (hdone : DoneShort frame) :
    (SetupAgrees frame ↔ SetupFits frame) ∧ (DoneAgrees replace frame ↔ DoneFits frame) :=
  ⟨setupAgrees_iff hsetup, doneAgrees_iff hdone⟩

theorem OptionAt.mem {prev last : Nat} {payload suffix : Bytes}
    (h : OptionAt prev payload last suffix) :
    ∀ byte ∈ suffix, byte ∈ payload := by
  induction h with
  | here => exact fun _ h => h
  | number _ _ _ _ _ ih =>
    exact fun byte h => List.mem_append_right _ (List.mem_append_right _ (ih byte h))
  | bytes _ _ _ _ _ ih =>
    exact fun byte h => List.mem_append_right _ (List.mem_append_right _
      (List.mem_append_right _ (ih byte h)))

theorem startsShort_of_mem {b : Bytes} (h : ∀ byte ∈ b, byte < 0xfc) : StartsShort b := by
  rintro first tail rfl
  exact h first List.mem_cons_self

/-- Bytes that are all in front of short varints only have short varints among them. -/
theorem short_of_bytes {frame : Bytes} (h : ∀ byte ∈ frame, byte < 0xfc) :
    SetupShort frame ∧ DoneShort frame := by
  have hpayload : ∀ {w payload rest}, IsFrame w payload rest frame →
      ∀ byte ∈ payload, byte < 0xfc := by
    rintro w payload rest ⟨-, high, low, -, rfl⟩ byte hbyte
    refine h byte (List.mem_append_right _ ?_)
    exact List.mem_cons_of_mem _ (List.mem_cons_of_mem _ (List.mem_append_left _ hbyte))
  refine ⟨⟨startsShort_of_mem h, fun w payload rest hframe _ last suffix hat => ⟨?_, ?_⟩⟩,
    startsShort_of_mem h, fun w payload rest hframe _ => ⟨?_, ?_⟩⟩
  · exact startsShort_of_mem fun byte hbyte => hpayload hframe byte (hat.mem byte hbyte)
  · rintro delta d behind - rfl
    exact startsShort_of_mem fun byte hbyte =>
      hpayload hframe byte (hat.mem byte (List.mem_append_right _ hbyte))
  · exact startsShort_of_mem (hpayload hframe)
  · rintro a w1 r1 - rfl
    refine ⟨startsShort_of_mem fun byte hbyte =>
      hpayload hframe byte (List.mem_append_right _ hbyte), ?_⟩
    rintro b w2 r2 - rfl
    exact startsShort_of_mem fun byte hbyte =>
      hpayload hframe byte (List.mem_append_right _ (List.mem_append_right _ hbyte))

/-- A SETUP with a path of five bytes of which there is one. -/
def pathPastEnd : Bytes := [0xaf, 0x00, 0x00, 0x03, 0x01, 0x05, 0x61]

/-- The browser takes what there is of the path, and the relay refuses the frame. -/
theorem not_agree_pathPastEnd :
    ¬∀ (replace : Bytes → String) (frame : Bytes), SetupShort frame → DoneShort frame →
      SetupAgrees frame ∧ DoneAgrees replace frame := by
  intro h
  have hbytes : ∀ byte ∈ pathPastEnd, byte < 0xfc := by simp [pathPastEnd]
  obtain ⟨hsetup, hdone⟩ := short_of_bytes hbytes
  obtain ⟨hagree, -⟩ := h (fun _ => "") pathPastEnd hsetup hdone
  have haccepts : AcceptsSetup pathPastEnd [⟨1, .bytes [0x61]⟩] := ⟨by decide, 0x2f00, _, rfl⟩
  obtain ⟨m, ⟨hread, -⟩, -⟩ := (hagree _).mp haccepts
  have hrefused : (Wire.SetupMessage.decode pathPastEnd).outcome =
      .err "need 5 bytes for value, have 1" := by decide
  rw [hrefused] at hread
  cases hread

/-- A PUBLISH_DONE with the status 0, two streams and a reason phrase of one byte. -/
def shortDone : Bytes := [0x0b, 0x00, 0x04, 0x00, 0x02, 0x01, 0x61]

theorem frames_agree_shortDone :
    SetupAgrees shortDone ∧ DoneAgrees (fun _ => "\uFFFD") shortDone := by
  have hbytes : ∀ byte ∈ shortDone, byte < 0xfc := by simp [shortDone]
  obtain ⟨hsetup, hdone⟩ := @frames_agree_iff (fun _ => "\uFFFD") shortDone
    (short_of_bytes hbytes).1 (short_of_bytes hbytes).2
  have hframe : IsFrame [0x0b] [0x00, 0x02, 0x01, 0x61] [] shortDone :=
    ⟨⟨0x0b, [], rfl, rfl⟩, 0x00, 0x04, rfl, rfl⟩
  have hvarint (v : UInt64) (byte : UInt8) (h : Wire.IsVarint v [byte]) :
      ShortVarint v.toNat [byte] := ⟨v, h, by simp, rfl⟩
  constructor
  · refine hsetup.mpr fun w payload hframe' hnumber => ?_
    obtain ⟨rfl, -, -⟩ := hframe.unique hframe'
    exact absurd hnumber (by decide)
  · refine hdone.mpr fun w payload hframe' _ status count len w1 w2 w3 tail h1 h2 h3 heq => ?_
    obtain ⟨-, rfl, -⟩ := hframe.unique hframe'
    have hwords : DoneWords [0x00, 0x02, 0x01, 0x61] 0 2 1 [0x61] :=
      ⟨[0x00], [0x02], [0x01], hvarint 0 0 (by decide), hvarint 2 2 (by decide),
        hvarint 1 1 (by decide), rfl⟩
    obtain ⟨-, -, rfl, rfl⟩ := hwords.unique ⟨w1, w2, w3, h1, h2, h3, heq⟩
    exact ⟨by decide, by decide, "a", by decide, by decide⟩

end Moqt.Web
