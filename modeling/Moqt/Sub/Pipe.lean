import Moqt.Pub.Ivf

/-! The subscriber in pipe mode: the payloads of the groups that it receives, one after the other as
the frames of an IVF container.  The publisher reads them back. -/

namespace Moqt.Sub

open Library Wire Pub

/-- `to_le_bytes` of an integer of `width` bytes. -/
def toLeBytes : (width : Nat) → Nat → Bytes
  | 0, _ => []
  | width + 1, n => UInt8.ofNat n :: toLeBytes width (n / 256)

/-- `buf[offset..offset + bytes.len()].copy_from_slice(bytes)` -/
def copyFromSlice (buf : Bytes) (offset : Nat) (bytes : Bytes) : Bytes :=
  buf.take offset ++ bytes ++ buf.drop (offset + bytes.length)

/-- The file header. -/
def ivfHeader : Bytes :=
  let ivfHdr := List.replicate 32 0
  let ivfHdr := copyFromSlice ivfHdr 0 [0x44, 0x4b, 0x49, 0x46]
  let ivfHdr := copyFromSlice ivfHdr 4 (toLeBytes 2 0)
  let ivfHdr := copyFromSlice ivfHdr 6 (toLeBytes 2 32)
  let ivfHdr := copyFromSlice ivfHdr 8 [0x56, 0x50, 0x38, 0x30]
  let ivfHdr := copyFromSlice ivfHdr 12 (toLeBytes 2 320)
  let ivfHdr := copyFromSlice ivfHdr 14 (toLeBytes 2 240)
  let ivfHdr := copyFromSlice ivfHdr 16 (toLeBytes 4 30)
  copyFromSlice ivfHdr 20 (toLeBytes 4 1)

/-- What `next_event` returns.  The payloads of a group are what `read_object` returns, up to the
end of the group or a failure. -/
inductive SessionEvent where
  | dataStream (payloads : List Bytes)
  | other
deriving DecidableEq, Repr

/-- The variables of the receive task, and what it has written. -/
structure Receiver where
  ivfHeaderWritten : Bool
  frameIndex : UInt64
  stdout : Bytes
deriving DecidableEq, Repr

namespace Receiver

def new : Receiver where
  ivfHeaderWritten := false
  frameIndex := 0
  stdout := []

def writeAll (r : Receiver) (bytes : Bytes) : Receiver := { r with stdout := r.stdout ++ bytes }

def writeHeader (r : Receiver) : Receiver :=
  if r.ivfHeaderWritten then r else { r.writeAll ivfHeader with ivfHeaderWritten := true }

/-- A turn of the loop over the objects of a group. -/
def writeObject (r : Receiver) (payload : Bytes) : Receiver :=
  let size := payload.length.toUInt32
  let r := r.writeAll (toLeBytes 4 size.toNat)
  let r := r.writeAll (toLeBytes 8 r.frameIndex.toNat)
  let r := r.writeAll payload
  { r with frameIndex := r.frameIndex + 1 }

/-- A turn of the loop over the events. -/
def receive (r : Receiver) : SessionEvent → Receiver
  | .dataStream payloads => payloads.foldl writeObject r.writeHeader
  | .other => r

end Receiver

/-- The standard output of the receive task, for the events up to the end of the connection. -/
def pipe (events : List SessionEvent) : Bytes := (events.foldl Receiver.receive .new).stdout

theorem length_toLeBytes (width n : Nat) : (toLeBytes width n).length = width := by
  induction width generalizing n with
  | zero => rfl
  | succ width ih => rw [toLeBytes, List.length_cons, ih]

/-- The integer is read back as far as the bytes hold it. -/
theorem fromLeBytes_toLeBytes (width n : Nat) :
    fromLeBytes (toLeBytes width n) = n % 256 ^ width := by
  induction width generalizing n with
  | zero => exact (Nat.mod_one n).symm
  | succ width ih =>
    have hlow : (UInt8.ofNat n).toNat = n % 256 := UInt8.toNat_ofNat'
    have hhigh : fromLeBytes (toLeBytes width (n / 256)) = n / 256 % 256 ^ width := ih (n / 256)
    calc fromLeBytes (toLeBytes (width + 1) n)
        = n % 256 + 256 * (n / 256 % 256 ^ width) := by rw [← hlow, ← hhigh]; rfl
      _ = n % 256 ^ (width + 1) := by rw [Nat.pow_succ', Nat.mod_mul]

theorem length_ivfHeader : ivfHeader.length = 32 := by decide

/-- The frame that a payload is read back as. -/
def frameOf (payload : Bytes) : IvfFrame where
  data := payload
  isKeyframe := isKeyframe payload

def SessionEvent.payloads : SessionEvent → List Bytes
  | .dataStream payloads => payloads
  | .other => []

/-- A size of less than 32 bits is written whole. -/
theorem isFrame_written {payload : Bytes} (h : payload.length < 2 ^ 32) (index : Nat) :
    IsFrame (frameOf payload)
      (toLeBytes 4 payload.length.toUInt32.toNat ++ toLeBytes 8 index ++ payload) := by
  refine ⟨_, ?_, ?_, rfl, rfl⟩
  · rw [List.length_append, length_toLeBytes, length_toLeBytes]
  · have hsize : payload.length.toUInt32.toNat = payload.length := by
      rw [Nat.toUInt32_eq, UInt32.toNat_ofNat', Nat.mod_eq_of_lt h]
    have htake : (toLeBytes 4 payload.length ++ toLeBytes 8 index).take 4 =
        toLeBytes 4 payload.length :=
      List.take_left' (length_toLeBytes 4 payload.length)
    have hfits : payload.length < 256 ^ 4 := h
    rw [hsize, htake, fromLeBytes_toLeBytes, Nat.mod_eq_of_lt hfits]
    rfl

namespace Receiver

/-- The file header is in front of the frames, unless there are none. -/
def Wrote (r : Receiver) (payloads : List Bytes) : Prop :=
  if r.ivfHeaderWritten then
    ∃ body, r.stdout = ivfHeader ++ body ∧ Items IsFrame (payloads.map frameOf) body []
  else r.stdout = [] ∧ payloads = []

theorem wrote_new : new.Wrote [] := ⟨rfl, rfl⟩

theorem Wrote.writeHeader {r : Receiver} {payloads : List Bytes} (h : r.Wrote payloads) :
    r.writeHeader.Wrote payloads ∧ r.writeHeader.ivfHeaderWritten = true := by
  unfold Receiver.writeHeader
  split
  next hwritten => exact ⟨h, hwritten⟩
  next hfresh =>
    rw [Wrote, if_neg hfresh] at h
    obtain ⟨hstdout, rfl⟩ := h
    refine ⟨⟨[], ?_, .nil []⟩, rfl⟩
    rw [writeAll, hstdout, List.nil_append, List.append_nil]

theorem Wrote.writeObject {r : Receiver} {payloads : List Bytes} {payload : Bytes}
    (h : r.Wrote payloads) (hwritten : r.ivfHeaderWritten = true)
    (hsize : payload.length < 2 ^ 32) :
    (r.writeObject payload).Wrote (payloads ++ [payload]) := by
  rw [Wrote, if_pos hwritten] at h
  obtain ⟨body, hstdout, hitems⟩ := h
  have hframe := isFrame_written hsize r.frameIndex.toNat
  rw [Wrote, if_pos (show (r.writeObject payload).ivfHeaderWritten = true from hwritten)]
  refine ⟨body ++ (toLeBytes 4 payload.length.toUInt32.toNat ++ toLeBytes 8 r.frameIndex.toNat ++
    payload), ?_, ?_⟩
  · simp only [Receiver.writeObject, writeAll, hstdout, List.append_assoc]
  · rw [List.map_append]
    refine Items.concat ?_ hframe
    simpa using hitems.append _

theorem Wrote.foldl_writeObject {r : Receiver} {written payloads : List Bytes}
    (h : r.Wrote written) (hwritten : r.ivfHeaderWritten = true)
    (hsize : ∀ payload ∈ payloads, payload.length < 2 ^ 32) :
    (payloads.foldl Receiver.writeObject r).Wrote (written ++ payloads) := by
  induction payloads generalizing r written with
  | nil => rwa [List.append_nil]
  | cons payload payloads ih =>
    obtain ⟨hfirst, hrest⟩ := List.forall_mem_cons.mp hsize
    rw [List.append_cons]
    exact ih (h.writeObject hwritten hfirst) hwritten hrest

theorem Wrote.receive {r : Receiver} {written : List Bytes} {event : SessionEvent}
    (h : r.Wrote written) (hsize : ∀ payload ∈ event.payloads, payload.length < 2 ^ 32) :
    (r.receive event).Wrote (written ++ event.payloads) := by
  cases event with
  | dataStream payloads =>
    obtain ⟨hheader, hwritten⟩ := h.writeHeader
    exact hheader.foldl_writeObject hwritten hsize
  | other =>
    rw [SessionEvent.payloads, List.append_nil]
    exact h

theorem Wrote.foldl_receive {r : Receiver} {written : List Bytes} {events : List SessionEvent}
    (h : r.Wrote written)
    (hsize : ∀ event ∈ events, ∀ payload ∈ event.payloads, payload.length < 2 ^ 32) :
    (events.foldl Receiver.receive r).Wrote (written ++ events.flatMap SessionEvent.payloads) := by
  induction events generalizing r written with
  | nil => rwa [List.flatMap_nil, List.append_nil]
  | cons event events ih =>
    obtain ⟨hfirst, hrest⟩ := List.forall_mem_cons.mp hsize
    rw [List.flatMap_cons, ← List.append_assoc]
    exact ih (h.receive hfirst) hrest

end Receiver

/-- The output is that of a receiver that wrote nothing, or the file header and the frames. -/
theorem pipe_cases {events : List SessionEvent}
    (hsize : ∀ event ∈ events, ∀ payload ∈ event.payloads, payload.length < 2 ^ 32) :
    (pipe events = [] ∧ events.flatMap SessionEvent.payloads = []) ∨
      ∃ body, pipe events = ivfHeader ++ body ∧
        Items IsFrame ((events.flatMap SessionEvent.payloads).map frameOf) body [] := by
  have h := Receiver.wrote_new.foldl_receive hsize
  rw [List.nil_append, Receiver.Wrote] at h
  split at h
  · exact .inr h
  · exact .inl h

/-- What the publisher makes of the output of the subscriber, and of a part of it that was cut off
behind. -/
structure ReadBack (events : List SessionEvent) : Prop where
  whole : readFrames (pipe events) = (events.flatMap SessionEvent.payloads).map frameOf
  truncated : ∀ stdin, stdin <+: pipe events →
    readFrames stdin <+: (events.flatMap SessionEvent.payloads).map frameOf

theorem readBack {events : List SessionEvent}
    (hsize : ∀ event ∈ events, ∀ payload ∈ event.payloads, payload.length < 2 ^ 32) :
    ReadBack events := by
  rcases pipe_cases hsize with ⟨hpipe, hnone⟩ | ⟨body, hpipe, hitems⟩
  · refine ⟨?_, fun stdin hstdin => ?_⟩
    · rw [hpipe, hnone]
      rfl
    · rw [hpipe, List.prefix_nil] at hstdin
      subst hstdin
      exact List.nil_prefix
  · refine ⟨?_, fun stdin hstdin => ?_⟩
    · rw [hpipe]
      exact readFrames_eq length_ivfHeader hitems
    · rw [hpipe] at hstdin
      exact readFrames_isPrefix length_ivfHeader hitems hstdin

theorem readBack_twoGroups :
    (∀ event ∈ [SessionEvent.dataStream [[0x10, 0x02], []], .other, .dataStream [[0x11]]],
      ∀ payload ∈ event.payloads, payload.length < 2 ^ 32) ∧
    ReadBack [.dataStream [[0x10, 0x02], []], .other, .dataStream [[0x11]]] :=
  ⟨by decide, readBack (by decide)⟩

example : readFrames (pipe [.dataStream [[0x10, 0x02], []], .other, .dataStream [[0x11]]]) =
    [⟨[0x10, 0x02], true⟩, ⟨[], false⟩, ⟨[0x11], false⟩] := by decide

end Moqt.Sub
