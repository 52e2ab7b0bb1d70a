import Moqt.Library.Chunked
import Moqt.Wire.Varint

/-! The frames of VP8 video in an IVF container, as the publisher reads them from its standard
input. -/

namespace Moqt.Pub

open Library Wire

structure IvfFrame where
  data : Bytes
  isKeyframe : Bool
deriving DecidableEq, Repr

/-- `u32::from_le_bytes` -/
def fromLeBytes (bytes : Bytes) : Nat := bytes.foldr (fun byte n => byte.toNat + 256 * n) 0

/-- Bit 0 of the first byte of a VP8 frame is clear in a keyframe. -/
def isKeyframe : Bytes → Bool
  | [] => false
  | first :: _ => first &&& 0x01 == 0

/-- `read_exact` on the standard input, with what is left of it. -/
def readExact (n : Nat) (stdin : Bytes) : Option (Bytes × Bytes) :=
  if n ≤ stdin.length then some (stdin.splitAt n) else none

/-- A turn of the loop that reads the frames. -/
def readFrame (stdin : Bytes) : Option (IvfFrame × Bytes) := do
  let (frameHeader, stdin) ← readExact 12 stdin
  let frameSize := fromLeBytes (frameHeader.take 4)
  let (data, stdin) ← readExact frameSize stdin
  return ({ data, isKeyframe := isKeyframe data }, stdin)

/-- The loop.  No more than `fuel` frames are read. -/
def readFramesFrom : (fuel : Nat) → Bytes → List IvfFrame
  | 0, _ => []
  | fuel + 1, stdin =>
    match readFrame stdin with
    | some (frame, stdin) => frame :: readFramesFrom fuel stdin
    | none => []

/-- The frames behind the file header. -/
def readFrames (stdin : Bytes) : List IvfFrame :=
  match readExact 32 stdin with
  | some (_, stdin) => readFramesFrom stdin.length stdin
  | none => []

theorem readExact_eq_some {n : Nat} {stdin bytes rest : Bytes} :
    readExact n stdin = some (bytes, rest) ↔ bytes.length = n ∧ stdin = bytes ++ rest := by
  unfold readExact
  split
  next hle =>
    rw [List.splitAt_eq, Option.some.injEq, Prod.mk.injEq]
    constructor
    · rintro ⟨rfl, rfl⟩
      exact ⟨List.length_take_of_le hle, (List.take_append_drop n stdin).symm⟩
    · rintro ⟨rfl, rfl⟩
      simp
  next hlt =>
    simp only [reduceCtorEq, false_iff, not_and]
    rintro rfl rfl
    simp at hlt

/-- A frame is behind 12 bytes, of which the first four give its size. -/
theorem readFrame_eq_some {stdin rest : Bytes} {frame : IvfFrame} :
    readFrame stdin = some (frame, rest) ↔ ∃ header, header.length = 12 ∧
      frame.data.length = fromLeBytes (header.take 4) ∧
      frame.isKeyframe = isKeyframe frame.data ∧ stdin = header ++ (frame.data ++ rest) := by
  simp only [readFrame, bind, Option.bind_eq_some_iff, Prod.exists, readExact_eq_some, pure,
    Option.some.injEq, Prod.mk.injEq]
  constructor
  · rintro ⟨header, _, ⟨hlength, rfl⟩, data, _, ⟨hsize, rfl⟩, rfl, rfl⟩
    exact ⟨header, hlength, hsize, rfl, rfl⟩
  · rintro ⟨header, hlength, hsize, hkey, rfl⟩
    exact ⟨header, _, ⟨hlength, rfl⟩, frame.data, rest, ⟨hsize, rfl⟩,
      by rw [← hkey], rfl⟩

theorem length_lt_of_readFrame {stdin rest : Bytes} {frame : IvfFrame}
    (h : readFrame stdin = some (frame, rest)) : rest.length < stdin.length := by
  obtain ⟨header, hlength, -, -, rfl⟩ := readFrame_eq_some.mp h
  simp only [List.length_append]
  omega

/-- What holds of the frame of every turn holds of all frames. -/
theorem forall_mem_readFrames {P : IvfFrame → Prop}
    (hturn : ∀ stdin frame rest, readFrame stdin = some (frame, rest) → P frame)
    (stdin : Bytes) : ∀ frame ∈ readFrames stdin, P frame := by
  have hloop : ∀ fuel stdin, ∀ frame ∈ readFramesFrom fuel stdin, P frame := by
    intro fuel stdin
    fun_induction readFramesFrom fuel stdin with
    | case1 => simp
    | case2 fuel stdin first rest hfirst ih =>
      exact List.forall_mem_cons.mpr ⟨hturn stdin first rest hfirst, ih⟩
    | case3 => simp
  unfold readFrames
  split
  next => exact hloop _ _
  next => simp

theorem isKeyframe_of_mem_readFrames {stdin : Bytes} {frame : IvfFrame}
    (h : frame ∈ readFrames stdin) : frame.isKeyframe = isKeyframe frame.data := by
  refine forall_mem_readFrames (P := fun frame => frame.isKeyframe = isKeyframe frame.data)
    (fun stdin frame rest hread => ?_) stdin frame h
  obtain ⟨_, -, -, hkey, -⟩ := readFrame_eq_some.mp hread
  exact hkey

theorem fromLeBytes_lt (bytes : Bytes) : fromLeBytes bytes < 256 ^ bytes.length := by
  induction bytes with
  | nil => decide
  | cons byte bytes ih =>
    have hbyte := byte.toNat_lt
    rw [List.length_cons, Nat.pow_succ]
    simp only [fromLeBytes, List.foldr_cons] at ih ⊢
    omega

theorem length_lt_of_mem_readFrames {stdin : Bytes} {frame : IvfFrame}
    (h : frame ∈ readFrames stdin) : frame.data.length < 2 ^ 32 := by
  refine forall_mem_readFrames (P := fun frame => frame.data.length < 2 ^ 32)
    (fun stdin frame rest hread => ?_) stdin frame h
  obtain ⟨header, hlength, hsize, -, -⟩ := readFrame_eq_some.mp hread
  have hlt := fromLeBytes_lt (header.take 4)
  rwa [List.length_take, hlength, ← hsize] at hlt

/-! ### The format -/

/-- The bytes of a frame: a header of 12 bytes, of which the first four give the size, and the
data. -/
def IsFrame (frame : IvfFrame) (w : Bytes) : Prop :=
  ∃ header, header.length = 12 ∧ frame.data.length = fromLeBytes (header.take 4) ∧
    frame.isKeyframe = isKeyframe frame.data ∧ w = header ++ frame.data

theorem readFrame_iff {stdin rest : Bytes} {frame : IvfFrame} :
    readFrame stdin = some (frame, rest) ↔ ∃ w, IsFrame frame w ∧ stdin = w ++ rest := by
  rw [readFrame_eq_some]
  constructor
  · rintro ⟨header, hlength, hsize, hkey, rfl⟩
    exact ⟨_, ⟨header, hlength, hsize, hkey, rfl⟩, (List.append_assoc ..).symm⟩
  · rintro ⟨_, ⟨header, hlength, hsize, hkey, rfl⟩, rfl⟩
    exact ⟨header, hlength, hsize, hkey, List.append_assoc ..⟩

theorem delimited_isFrame : Delimited IsFrame := by
  intro frame frame' w w' r r' h h' heq
  have hread : readFrame (w ++ r) = some (frame, r) := readFrame_iff.mpr ⟨w, h, rfl⟩
  rw [readFrame_iff.mpr ⟨w', h', heq⟩, Option.some.injEq, Prod.mk.injEq] at hread
  obtain ⟨rfl, rfl⟩ := hread
  exact ⟨rfl, List.append_cancel_right heq⟩

/-- The loop reads frames up to where there is none in front: fuel for every byte bounds nothing. -/
theorem items_readFramesFrom {fuel : Nat} {stdin : Bytes} (h : stdin.length ≤ fuel) :
    ∃ tail, Items IsFrame (readFramesFrom fuel stdin) stdin tail ∧ readFrame tail = none := by
  fun_induction readFramesFrom fuel stdin with
  | case1 stdin =>
    obtain rfl : stdin = [] := List.length_eq_zero_iff.mp (Nat.le_zero.mp h)
    exact ⟨[], .nil [], rfl⟩
  | case2 fuel stdin frame rest hframe ih =>
    have hlt := length_lt_of_readFrame hframe
    obtain ⟨tail, hitems, hend⟩ := ih (by omega)
    obtain ⟨w, hw, rfl⟩ := readFrame_iff.mp hframe
    exact ⟨tail, .cons hw hitems, hend⟩
  | case3 fuel stdin hnone => exact ⟨stdin, .nil stdin, hnone⟩

/-- Frames in front of the bytes are read first. -/
theorem isPrefix_readFramesFrom {frames : List IvfFrame} {stdin tail : Bytes}
    (h : Items IsFrame frames stdin tail) : frames <+: readFramesFrom stdin.length stdin := by
  obtain ⟨tail', hitems, hend⟩ := items_readFramesFrom (Nat.le_refl stdin.length)
  refine h.isPrefix delimited_isFrame hitems fun frame w r hw heq => ?_
  rw [readFrame_iff.mpr ⟨w, hw, heq⟩] at hend
  cases hend

/-- Of bytes that are frames, with nothing behind them, a part in front has some of the frames. -/
theorem readFramesFrom_isPrefix {frames : List IvfFrame} {stdin w : Bytes}
    (h : Items IsFrame frames stdin []) (hw : w <+: stdin) :
    readFramesFrom w.length w <+: frames := by
  obtain ⟨c, rfl⟩ := hw
  obtain ⟨tail, hitems, -⟩ := items_readFramesFrom (Nat.le_refl w.length)
  refine (hitems.append c).isPrefix delimited_isFrame h fun frame u r hu heq => ?_
  obtain ⟨header, hlength, -, -, rfl⟩ := hu
  have hlengths := congrArg List.length heq
  simp only [List.length_append, List.length_nil] at hlengths
  omega

/-- Behind a file header the frames are all read. -/
theorem readFrames_eq {header body : Bytes} {frames : List IvfFrame} (hheader : header.length = 32)
    (h : Items IsFrame frames body []) : readFrames (header ++ body) = frames := by
  have hskip : readExact 32 (header ++ body) = some (header, body) :=
    readExact_eq_some.mpr ⟨hheader, rfl⟩
  have hle : readFramesFrom body.length body <+: frames :=
    readFramesFrom_isPrefix h List.prefix_rfl
  have hge : frames <+: readFramesFrom body.length body := isPrefix_readFramesFrom h
  rw [readFrames, hskip]
  exact hle.eq_of_length_le hge.length_le

/-- A part in front of a file has some of its frames. -/
theorem readFrames_isPrefix {header body stdin : Bytes} {frames : List IvfFrame}
    (hheader : header.length = 32) (h : Items IsFrame frames body [])
    (hstdin : stdin <+: header ++ body) : readFrames stdin <+: frames := by
  unfold readFrames
  split
  next first rest hread =>
    obtain ⟨hfirst, rfl⟩ := readExact_eq_some.mp hread
    obtain ⟨cut, hcut⟩ := hstdin
    rw [List.append_assoc] at hcut
    obtain ⟨-, hbody⟩ := List.append_inj hcut (hfirst.trans hheader.symm)
    exact readFramesFrom_isPrefix h ⟨cut, hbody⟩
  next => exact List.nil_prefix

end Moqt.Pub
