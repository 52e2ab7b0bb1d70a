import Moqt.Library.Program
import Moqt.Library.Stream

/-! Methods of an object that owns a stream.  A method leaves the stream behind the last byte that
it took, whether it returns or fails, so that another can be called after it.  To a caller that
makes no call after a failure, a method is a `Reader`. -/

namespace Library

/-- A function of type `async fn(&mut self) -> Result<α>`. -/
abbrev Method (α : Type) : Type := EStateM Failure ByteStream α

namespace Method

variable {α β : Type}

def fail (e : Failure) : Method α := fun s => .error e s

/-- `read_exact` into a buffer of `n` bytes; a read that finds too few of them takes what there
is. -/
def readExact (n : Nat) : Method (List UInt8) := fun s =>
  if n ≤ s.bytes.length then .ok (s.bytes.take n) (s.drop n)
  else .error (.readExact (Reader.shortage s)) (s.drop s.bytes.length)

/-- `read_exact` into a buffer of `n` bytes, unless it has none. -/
def readBuffer (n : Nat) : Method (List UInt8) := if 0 < n then readExact n else pure []

/-- Bytes that are read if they are there. -/
def optional (present : Bool) (x : Method (List UInt8)) : Method (List UInt8) :=
  if present then x else pure []

/-- `vec![0u8; n]`, which panics past `isize::MAX` bytes. -/
def allocate (n : Nat) : Method Unit :=
  if n ≤ isizeMax then pure () else fail (.panic "capacity overflow")

/-- A read that finds too few bytes is the end of what is read. -/
def endOnReadExact (x : Method α) : Method (Option α) := fun s =>
  match x s with
  | .ok a t => .ok (some a) t
  | .error (.readExact _) t => .ok none t
  | .error e t => .error e t

/-- The result of a call that reads nothing, with the `?` operator. -/
def ofOutcome : Outcome α → Method α
  | .ok a => pure a
  | .err message => fail (.error message)
  | .panic message => fail (.panic message)

/-- A decoder run on bytes that have been read; what it leaves of them is dropped. -/
def decode (d : Decoder α) (bytes : List UInt8) : Method α := ofOutcome (d bytes).outcome

/-- The stream as a call leaves it. -/
def left (x : Method α) (s : ByteStream) : ByteStream :=
  match x s with
  | .ok _ t => t
  | .error _ t => t

theorem left_of_ok {x : Method α} {s t : ByteStream} {a : α} (h : x s = .ok a t) :
    x.left s = t := by
  simp only [left, h]

theorem left_of_error {x : Method α} {s t : ByteStream} {e : Failure} (h : x s = .error e t) :
    x.left s = t := by
  simp only [left, h]

/-! ### Runs -/

theorem readExact_splits {s t : ByteStream} {bytes : List UInt8} (h : s.Splits bytes t) :
    readExact bytes.length s = .ok bytes t := by
  have hle : bytes.length ≤ s.bytes.length := by
    rw [h.1, List.length_append]
    exact Nat.le_add_right _ _
  have hdrop : s.drop bytes.length = t := by
    refine ByteStream.eq_iff.mpr ⟨?_, h.2⟩
    rw [ByteStream.drop_bytes, h.1, List.drop_left]
  rw [readExact, if_pos hle, hdrop, h.1, List.take_left]

/-- The stream behind its last byte. -/
def drained (s : ByteStream) : ByteStream := s.drop s.bytes.length

@[simp] theorem drained_bytes (s : ByteStream) : (drained s).bytes = [] := by
  simp [drained]

theorem drained_eq {s t : ByteStream} {w : List UInt8} (h : s.Splits w t) :
    drained t = drained s := by
  refine ByteStream.eq_iff.mpr ⟨?_, h.2.symm⟩
  rw [drained_bytes, drained_bytes]

theorem readExact_short {n : Nat} {s : ByteStream} (h : s.bytes.length < n) :
    ∃ x, readExact n s = .error (.readExact x) (drained s) :=
  ⟨_, if_neg (Nat.not_le_of_lt h)⟩

section EndOnReadExact

variable {x : Method α} {s t : ByteStream}

theorem endOnReadExact_ok {a : α} (h : x s = .ok a t) : endOnReadExact x s = .ok (some a) t := by
  simp only [endOnReadExact, h]

theorem endOnReadExact_short {e : ReadExactError} (h : x s = .error (.readExact e) t) :
    endOnReadExact x s = .ok none t := by
  simp only [endOnReadExact, h]

theorem endOnReadExact_error {m : String} (h : x s = .error (.error m) t) :
    endOnReadExact x s = .error (.error m) t := by
  simp only [endOnReadExact, h]

end EndOnReadExact

/-! ### Reads that find too few bytes -/

/-- A read that finds too few bytes has taken all of them. -/
def Drains (x : Method α) : Prop := ∀ s e t, x s = .error (.readExact e) t → t.bytes = []

theorem Drains.pure (a : α) : (pure a : Method α).Drains := by
  rintro s e t ⟨⟩

theorem Drains.fail {e : Failure} (h : ∀ x, e ≠ .readExact x) : (fail e : Method α).Drains := by
  intro s x t heq
  cases heq
  exact absurd rfl (h x)

theorem Drains.bind {x : Method α} {f : α → Method β} (hx : x.Drains) (hf : ∀ a, (f a).Drains) :
    (x >>= f).Drains := by
  intro s e t h
  rcases bind_eq_error h with h | ⟨a, mid, -, h⟩
  · exact hx s e t h
  · exact hf a mid e t h

theorem Drains.ite {p : Prop} [Decidable p] {x y : Method α} (hx : x.Drains) (hy : y.Drains) :
    (if p then x else y).Drains := by
  split
  · exact hx
  · exact hy

theorem Drains.readExact (n : Nat) : (readExact n).Drains := by
  intro s e t h
  unfold Method.readExact at h
  split at h
  · cases h
  · cases h
    exact drained_bytes s

theorem Drains.readBuffer (n : Nat) : (readBuffer n).Drains := .ite (.readExact n) (.pure [])

theorem Drains.optional {x : Method (List UInt8)} (hx : x.Drains) (present : Bool) :
    (optional present x).Drains := .ite hx (.pure [])

theorem Drains.allocate (n : Nat) : (allocate n).Drains := .ite (.pure ()) (.fail nofun)

theorem Drains.endOnReadExact (x : Method α) : (endOnReadExact x).Drains := by
  intro s e t h
  unfold Method.endOnReadExact at h
  split at h
  · cases h
  · cases h
  next e' t' hne _ =>
    cases h
    exact absurd rfl (hne e)

/-! ### Methods as readers -/

/-- The method to a caller that makes no call after a failure. -/
def toReader (x : Method α) : Reader α := fun s =>
  match x s with
  | .ok a t => .ok (a, t)
  | .error e _ => .error e

theorem toReader_returns {x : Method α} {s t : ByteStream} {a : α} :
    x.toReader.Returns s a t ↔ x s = .ok a t := by
  unfold Reader.Returns toReader
  split
  next h => simp [h]
  next h => simp [h]

theorem toReader_fails {x : Method α} {s : ByteStream} {e : Failure} :
    x.toReader.Fails s e ↔ ∃ t, x s = .error e t := by
  unfold Reader.Fails toReader
  split
  next h => simp [h]
  next h => simp [h]

@[simp] theorem toReader_pure (a : α) : toReader (pure a) = pure a := rfl

@[simp] theorem toReader_bind (x : Method α) (f : α → Method β) :
    toReader (x >>= f) = x.toReader >>= fun a => (f a).toReader := by
  funext s
  cases h : x s with
  | ok a t => simp [toReader, bind, EStateM.bind, Reader.bind, h]
  | error e t => simp [toReader, bind, EStateM.bind, Reader.bind, h]

@[simp] theorem toReader_ite (p : Prop) [Decidable p] (x y : Method α) :
    toReader (if p then x else y) = if p then x.toReader else y.toReader := by
  split
  · rfl
  · rfl

@[simp] theorem toReader_fail (e : Failure) :
    toReader (fail e : Method α) = Reader.fail e := rfl

@[simp] theorem toReader_readExact (n : Nat) : toReader (readExact n) = Reader.readExact n := by
  funext s
  by_cases h : n ≤ s.bytes.length
  · simp only [toReader, readExact, Reader.readExact, if_pos h]
  · simp only [toReader, readExact, Reader.readExact, if_neg h]

@[simp] theorem toReader_readBuffer (n : Nat) : toReader (readBuffer n) = Reader.readBuffer n := by
  simp [readBuffer, Reader.readBuffer]

@[simp] theorem toReader_optional (present : Bool) (x : Method (List UInt8)) :
    toReader (optional present x) = Reader.optional present x.toReader := by
  simp [optional, Reader.optional]

@[simp] theorem toReader_allocate (n : Nat) : toReader (allocate n) = Reader.allocate n := by
  simp [allocate, Reader.allocate]

@[simp] theorem toReader_ofOutcome (o : Outcome α) :
    toReader (ofOutcome o) = Reader.ofOutcome o := by
  cases o with
  | ok a | err m | panic m => rfl

@[simp] theorem toReader_decode (d : Decoder α) (bytes : List UInt8) :
    toReader (decode d bytes) = Reader.decode d bytes :=
  toReader_ofOutcome _

@[simp] theorem toReader_map (f : α → β) (x : Method α) :
    toReader (f <$> x) = f <$> x.toReader := by
  funext s
  cases h : x s with
  | ok a t => simp [toReader, Functor.map, EStateM.map, Reader.bind, Reader.pure, h]
  | error e t => simp [toReader, Functor.map, EStateM.map, Reader.bind, h]

theorem toReader_endOnReadExact {x : Method α}
    (h : ∀ s e t, x s = .error (.readExact e) t → t = drained s) :
    toReader (endOnReadExact x) = Reader.endOnReadExact x.toReader := by
  funext s
  unfold toReader endOnReadExact Reader.endOnReadExact
  cases hx : x s with
  | ok a t => simp only [hx]
  | error e t =>
    cases e with
    | readExact e =>
      obtain rfl := h s e t hx
      simp only [hx, drained]
    | error m | panic m => simp only [hx]

end Method

end Library
