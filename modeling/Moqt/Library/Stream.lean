import Moqt.Library.Codec

/-! Streams of a transport and what reads them.  A stream is the bytes that the peer sends and the
way in which it ends it; a reader takes bytes from the front and fails where there are too few.
`Returns` and `Fails` are the two ends of a reader's run, and the lemmas about them take a reader
apart.  A reader that `Agrees` with a decoder takes from a stream what the decoder takes off a
slice with the same bytes. -/

namespace Library

/-- The peer finishes a stream, or resets it. -/
inductive Ending where
  | finished
  | reset
deriving DecidableEq, Repr

/-- What a stream carries, which is fewer than `2 ^ 62` bytes. -/
structure ByteStream where
  bytes : List UInt8
  ending : Ending
  fits : bytes.length < 2 ^ 62 := by decide
deriving DecidableEq, Repr

namespace ByteStream

/-- The stream without its first `n` bytes. -/
def drop (s : ByteStream) (n : Nat) : ByteStream where
  bytes := s.bytes.drop n
  ending := s.ending
  fits := Nat.lt_of_le_of_lt (by simp) s.fits

@[simp] theorem drop_bytes (s : ByteStream) (n : Nat) : (s.drop n).bytes = s.bytes.drop n := rfl

@[simp] theorem drop_ending (s : ByteStream) (n : Nat) : (s.drop n).ending = s.ending := rfl

theorem eq_iff {s t : ByteStream} : s = t ↔ s.bytes = t.bytes ∧ s.ending = t.ending := by
  cases s
  cases t
  simp

/-- The bytes `taken` are in front of what `t` carries, and `t` ends as `s` does. -/
def Splits (s : ByteStream) (taken : List UInt8) (t : ByteStream) : Prop :=
  s.bytes = taken ++ t.bytes ∧ s.ending = t.ending

theorem Splits.refl (s : ByteStream) : s.Splits [] s := ⟨rfl, rfl⟩

theorem Splits.trans {s t u : ByteStream} {a b : List UInt8} (h : s.Splits a t)
    (h' : t.Splits b u) : s.Splits (a ++ b) u := by
  refine ⟨?_, h.2.trans h'.2⟩
  rw [h.1, h'.1, List.append_assoc]

/-- What is taken, and what is left, are known from the length of what is taken. -/
theorem Splits.unique {s t u : ByteStream} {a b : List UInt8} (h : s.Splits a t)
    (h' : s.Splits b u) (hlen : a.length = b.length) : a = b ∧ t = u := by
  obtain ⟨hab, htu⟩ := List.append_inj (h.1.symm.trans h'.1) hlen
  exact ⟨hab, eq_iff.mpr ⟨htu, h.2.symm.trans h'.2⟩⟩

/-- A stream that has bytes in front splits there. -/
theorem exists_splits {s : ByteStream} {a r : List UInt8} (h : s.bytes = a ++ r) :
    ∃ t, s.Splits a t ∧ t.bytes = r := by
  refine ⟨s.drop a.length, ⟨?_, rfl⟩, ?_⟩
  · rw [drop_bytes, h, List.drop_left]
  · rw [drop_bytes, h, List.drop_left]

/-- Bytes are taken one part after the other. -/
theorem splits_append {s u : ByteStream} {a b : List UInt8} :
    s.Splits (a ++ b) u ↔ ∃ t, s.Splits a t ∧ t.Splits b u := by
  constructor
  · intro h
    obtain ⟨t, ht, hrest⟩ := exists_splits (h.1.trans (List.append_assoc a b u.bytes))
    exact ⟨t, ht, hrest, ht.2.symm.trans h.2⟩
  · rintro ⟨t, ht, hu⟩
    exact ht.trans hu

end ByteStream

/-- Why an exact read has failed. -/
inductive ReadExactError where
  | finishedEarly (have_ : Nat)
  | readError
deriving DecidableEq, Repr

/-- How a reader fails: an exact read does, or what was read is refused, or the reader panics. -/
inductive Failure where
  | readExact (error : ReadExactError)
  | error (message : String)
  | panic (message : String)
deriving DecidableEq, Repr

def Failure.isPanic : Failure → Bool
  | .panic _ => true
  | _ => false

/-- A function that reads from a stream. -/
def Reader (α : Type) : Type := ByteStream → Except Failure (α × ByteStream)

namespace Reader

variable {α β : Type}

protected def pure (a : α) : Reader α := fun s => .ok (a, s)

protected def bind (x : Reader α) (f : α → Reader β) : Reader β := fun s =>
  match x s with
  | .ok (a, s) => f a s
  | .error e => .error e

instance : Monad Reader where
  pure := Reader.pure
  bind := Reader.bind

def fail (e : Failure) : Reader α := fun _ => .error e

/-- The error of an exact read that finds too few bytes. -/
def shortage (s : ByteStream) : ReadExactError :=
  match s.ending with
  | .finished => .finishedEarly s.bytes.length
  | .reset => .readError

/-- `read_exact` into a buffer of `n` bytes. -/
def readExact (n : Nat) : Reader (List UInt8) := fun s =>
  if n ≤ s.bytes.length then .ok (s.bytes.take n, s.drop n)
  else .error (.readExact (shortage s))

/-- `read_exact` into a buffer of `n` bytes, unless it has none. -/
def readBuffer (n : Nat) : Reader (List UInt8) := if 0 < n then readExact n else pure []

/-- Bytes that are read if they are there. -/
def optional (present : Bool) (x : Reader (List UInt8)) : Reader (List UInt8) :=
  if present then x else pure []

/-- `vec![0u8; n]`, which panics past `isize::MAX` bytes. -/
def allocate (n : Nat) : Reader Unit :=
  if n ≤ isizeMax then pure () else fail (.panic "capacity overflow")

/-- A read that finds too few bytes takes what there is, and is the end of what is read. -/
def endOnReadExact (x : Reader α) : Reader (Option α) := fun s =>
  match x s with
  | .ok (a, t) => .ok (some a, t)
  | .error (.readExact _) => .ok (none, s.drop s.bytes.length)
  | .error e => .error e

/-- The result of a call that reads nothing, with the `?` operator. -/
def ofOutcome : Outcome α → Reader α
  | .ok a => pure a
  | .err message => fail (.error message)
  | .panic message => fail (.panic message)

/-- A decoder run on bytes that have been read; what it leaves of them is dropped. -/
def decode (d : Decoder α) (bytes : List UInt8) : Reader α := ofOutcome (d bytes).outcome

/-! ### The two ends of a run -/

/-- `x` returns `a` on the stream `s` and leaves `s'`. -/
def Returns (x : Reader α) (s : ByteStream) (a : α) (s' : ByteStream) : Prop :=
  x s = .ok (a, s')

/-- `x` fails on the stream `s`. -/
def Fails (x : Reader α) (s : ByteStream) (e : Failure) : Prop := x s = .error e

instance [DecidableEq α] (x : Reader α) (s : ByteStream) (a : α) (s' : ByteStream) :
    Decidable (x.Returns s a s') :=
  inferInstanceAs (Decidable (x s = .ok (a, s')))

theorem Returns.unique {x : Reader α} {s t t' : ByteStream} {a a' : α} (h : x.Returns s a t)
    (h' : x.Returns s a' t') : a = a' ∧ t = t' := by
  have heq := h.symm.trans h'
  simp only [Except.ok.injEq, Prod.mk.injEq] at heq
  exact heq

theorem Returns.not_fails {x : Reader α} {s t : ByteStream} {a : α} {e : Failure}
    (h : x.Returns s a t) : ¬ x.Fails s e := by
  intro hf
  cases h.symm.trans hf

theorem Fails.unique {x : Reader α} {s : ByteStream} {e e' : Failure} (h : x.Fails s e)
    (h' : x.Fails s e') : e = e' :=
  Except.error.inj (h.symm.trans h')

theorem returns_or_fails (x : Reader α) (s : ByteStream) :
    (∃ a t, x.Returns s a t) ∨ ∃ e, x.Fails s e := by
  cases h : x s with
  | ok p => exact .inl ⟨p.1, p.2, h⟩
  | error e => exact .inr ⟨e, h⟩

theorem toOption_eq_some {x : Reader α} {s t : ByteStream} {a : α} :
    (x s).toOption = some (a, t) ↔ x.Returns s a t := by
  unfold Returns
  cases x s <;> simp [Except.toOption]

@[simp] theorem returns_pure {a a' : α} {s t : ByteStream} :
    (pure a : Reader α).Returns s a' t ↔ a = a' ∧ s = t := by
  simp [Returns, pure, Reader.pure]

@[simp] theorem fails_pure {a : α} {s : ByteStream} {e : Failure} :
    ¬(pure a : Reader α).Fails s e := by
  simp [Fails, pure, Reader.pure]

@[simp] theorem returns_bind {x : Reader α} {f : α → Reader β} {s t : ByteStream} {b : β} :
    (x >>= f).Returns s b t ↔ ∃ a mid, x.Returns s a mid ∧ (f a).Returns mid b t := by
  simp only [Returns, bind, Reader.bind]
  constructor
  · intro h
    split at h
    next a mid hx => exact ⟨a, mid, hx, h⟩
    · cases h
  · rintro ⟨a, mid, hx, hf⟩
    rw [hx]
    exact hf

@[simp] theorem fails_bind {x : Reader α} {f : α → Reader β} {s : ByteStream} {e : Failure} :
    (x >>= f).Fails s e ↔ x.Fails s e ∨ ∃ a mid, x.Returns s a mid ∧ (f a).Fails mid e := by
  simp only [Fails, Returns, bind, Reader.bind]
  cases hx : x s with
  | ok p =>
    obtain ⟨a, mid⟩ := p
    simp
  | error e' => simp

@[simp] theorem returns_map {f : α → β} {x : Reader α} {s t : ByteStream} {b : β} :
    (f <$> x).Returns s b t ↔ ∃ a, x.Returns s a t ∧ f a = b := by
  rw [show f <$> x = x >>= fun a => pure (f a) from rfl]
  simp

@[simp] theorem fails_map {f : α → β} {x : Reader α} {s : ByteStream} {e : Failure} :
    (f <$> x).Fails s e ↔ x.Fails s e := by
  rw [show f <$> x = x >>= fun a => pure (f a) from rfl]
  simp

@[simp] theorem returns_fail {e : Failure} {s t : ByteStream} {a : α} :
    ¬(fail e : Reader α).Returns s a t := by
  simp [Returns, fail]

@[simp] theorem fails_fail {e e' : Failure} {s : ByteStream} :
    (fail e : Reader α).Fails s e' ↔ e = e' := by
  simp [Fails, fail]

/-- An exact read takes the bytes from the front. -/
theorem returns_readExact {n : Nat} {s t : ByteStream} {bytes : List UInt8} :
    (readExact n).Returns s bytes t ↔ bytes.length = n ∧ s.Splits bytes t := by
  unfold Returns readExact
  split
  next hle =>
    simp only [Except.ok.injEq, Prod.mk.injEq]
    constructor
    · rintro ⟨rfl, rfl⟩
      exact ⟨List.length_take_of_le hle, by simp [ByteStream.Splits]⟩
    · rintro ⟨rfl, hbytes, hending⟩
      rw [ByteStream.eq_iff, ByteStream.drop_bytes, hbytes]
      exact ⟨List.take_left, List.drop_left, hending⟩
  next hlt =>
    simp only [reduceCtorEq, false_iff]
    rintro ⟨rfl, hbytes, -⟩
    rw [hbytes, List.length_append] at hlt
    omega

theorem fails_readExact {n : Nat} {s : ByteStream} {e : Failure} :
    (readExact n).Fails s e ↔ s.bytes.length < n ∧ e = .readExact (shortage s) := by
  unfold Fails readExact
  split
  next hle => simp [Nat.not_lt.mpr hle]
  next hlt => simp [Nat.lt_of_not_le hlt, eq_comm]

@[simp] theorem returns_ite {p : Prop} [Decidable p] {x y : Reader α} {s t : ByteStream} {a : α} :
    (if p then x else y).Returns s a t ↔ (p ∧ x.Returns s a t) ∨ (¬p ∧ y.Returns s a t) := by
  by_cases h : p <;> simp [h]

@[simp] theorem fails_ite {p : Prop} [Decidable p] {x y : Reader α} {s : ByteStream}
    {e : Failure} :
    (if p then x else y).Fails s e ↔ (p ∧ x.Fails s e) ∨ (¬p ∧ y.Fails s e) := by
  by_cases h : p <;> simp [h]

theorem returns_readBuffer {n : Nat} {s t : ByteStream} {bytes : List UInt8} :
    (readBuffer n).Returns s bytes t ↔ bytes.length = n ∧ s.Splits bytes t := by
  rw [readBuffer, returns_ite, returns_readExact, returns_pure]
  constructor
  · rintro (⟨-, h⟩ | ⟨hpos, rfl, rfl⟩)
    · exact h
    · exact ⟨by simp only [List.length_nil]; omega, .refl s⟩
  · rintro ⟨rfl, hsplit⟩
    cases bytes with
    | nil => exact .inr ⟨by simp, rfl, ByteStream.eq_iff.mpr hsplit⟩
    | cons byte bytes => exact .inl ⟨by simp, rfl, hsplit⟩

theorem fails_readBuffer {n : Nat} {s : ByteStream} {e : Failure} :
    (readBuffer n).Fails s e ↔ s.bytes.length < n ∧ e = .readExact (shortage s) := by
  rw [readBuffer, fails_ite, fails_readExact]
  constructor
  · rintro (⟨-, h⟩ | ⟨-, h⟩)
    · exact h
    · exact absurd h fails_pure
  · rintro ⟨hlt, he⟩
    exact .inl ⟨by omega, hlt, he⟩

theorem returns_endOnReadExact_some {x : Reader α} {s t : ByteStream} {a : α} :
    (endOnReadExact x).Returns s (some a) t ↔ x.Returns s a t := by
  unfold Returns endOnReadExact
  split <;> simp [*]

theorem returns_endOnReadExact_none {x : Reader α} {s : ByteStream} :
    (∃ t, (endOnReadExact x).Returns s none t) ↔ ∃ e, x.Fails s (.readExact e) := by
  unfold Returns Fails endOnReadExact
  split
  next a t h => simp [h]
  next e h => simp [h]
  next e hother h => simpa [h] using fun e' heq => hother e' heq

theorem fails_endOnReadExact {x : Reader α} {s : ByteStream} {e : Failure} :
    (endOnReadExact x).Fails s e ↔ x.Fails s e ∧ ∀ e', e ≠ .readExact e' := by
  unfold Fails endOnReadExact
  split
  next a t h => simp [h]
  next e' h =>
    rw [h]
    simp only [reduceCtorEq, Except.error.injEq, false_iff, not_and]
    rintro rfl hother
    exact hother e' rfl
  next e' hother h =>
    simp only [h, Except.error.injEq, iff_self_and]
    rintro rfl
    exact hother

theorem returns_optional {present : Bool} {x : Reader (List UInt8)} {s t : ByteStream}
    {bytes : List UInt8} : (optional present x).Returns s bytes t ↔
      (present = true ∧ x.Returns s bytes t) ∨ (present = false ∧ bytes = [] ∧ s = t) := by
  cases present <;> simp [optional, eq_comm]

@[simp] theorem returns_allocate {n : Nat} {s t : ByteStream} {u : Unit} :
    (allocate n).Returns s u t ↔ n ≤ isizeMax ∧ s = t := by
  unfold allocate
  split <;> simp [*]

@[simp] theorem fails_allocate {n : Nat} {s : ByteStream} {e : Failure} :
    (allocate n).Fails s e ↔ isizeMax < n ∧ e = .panic "capacity overflow" := by
  unfold allocate
  split
  next hle => simp [Nat.not_lt.mpr hle]
  next hlt => simp [Nat.lt_of_not_le hlt, eq_comm]

@[simp] theorem returns_ofOutcome {o : Outcome α} {s t : ByteStream} {a : α} :
    (ofOutcome o).Returns s a t ↔ o = .ok a ∧ s = t := by
  cases o <;> simp [ofOutcome]

theorem fails_ofOutcome {o : Outcome α} {s : ByteStream} {e : Failure} :
    (ofOutcome o).Fails s e ↔
      (∃ m, o = .err m ∧ e = .error m) ∨ ∃ m, o = .panic m ∧ e = .panic m := by
  cases o <;> simp [ofOutcome, eq_comm]

theorem returns_decode {d : Decoder α} {bytes : List UInt8} {s t : ByteStream} {a : α} :
    (decode d bytes).Returns s a t ↔ (∃ rest, d.Returns bytes a rest) ∧ s = t := by
  simp [decode, Decoder.Returns]

/-! ### Readers and decoders -/

/-- The reader takes a word of the format `F` from the front, and returns what it stands for; it
accepts nothing else. -/
def Reads (x : Reader α) (F : α → List UInt8 → Prop) : Prop :=
  ∀ s a t, x.Returns s a t ↔ ∃ w, F a w ∧ s.Splits w t

/-- A reader and a decoder of the same words leave the same bytes. -/
theorem Reads.leaves_iff {x : Reader α} {d : Decoder β} {F : α → List UInt8 → Prop}
    {G : β → List UInt8 → Prop} (hx : x.Reads F) (hd : d.Reads G)
    (h : ∀ w, (∃ a, F a w) ↔ ∃ b, G b w) (s : ByteStream) (rest : List UInt8) :
    (∃ a t, x.Returns s a t ∧ t.bytes = rest) ↔ ∃ b, d.Returns s.bytes b rest := by
  simp only [hx s, hd s.bytes]
  constructor
  · rintro ⟨a, t, ⟨w, hF, hsplit⟩, rfl⟩
    obtain ⟨b, hG⟩ := (h w).mp ⟨a, hF⟩
    exact ⟨b, w, hG, hsplit.1⟩
  · rintro ⟨b, w, hG, hbytes⟩
    obtain ⟨a, hF⟩ := (h w).mpr ⟨b, hG⟩
    obtain ⟨t, hsplit, ht⟩ := ByteStream.exists_splits hbytes
    exact ⟨a, t, ⟨w, hF, hsplit⟩, ht⟩

/-- The reader returns what the decoder returns on the bytes of the stream, with the bytes that it
has taken; it leaves what the decoder leaves, and the decoder takes those bytes by themselves for
the same. -/
structure Agrees (x : Reader (α × List UInt8)) (d : Decoder α) (s : ByteStream) : Prop where
  returns_iff : ∀ a rest,
    (∃ raw t, x.Returns s (a, raw) t ∧ t.bytes = rest) ↔ d.Returns s.bytes a rest
  taken : ∀ a raw t, x.Returns s (a, raw) t → s.bytes = raw ++ t.bytes ∧ d.Returns raw a []

theorem agrees_of_reads {x : Reader (α × List UInt8)} {d : Decoder α} {F : α → List UInt8 → Prop}
    (hx : ∀ s a raw t, x.Returns s (a, raw) t ↔ F a raw ∧ s.Splits raw t) (hd : d.Reads F)
    (s : ByteStream) : x.Agrees d s where
  returns_iff := by
    intro a rest
    simp only [hx s, hd s.bytes]
    constructor
    · rintro ⟨raw, t, ⟨hraw, hsplit⟩, rfl⟩
      exact ⟨raw, hraw, hsplit.1⟩
    · rintro ⟨raw, hraw, hbytes⟩
      obtain ⟨t, hsplit, ht⟩ := ByteStream.exists_splits hbytes
      exact ⟨raw, t, ⟨hraw, hsplit⟩, ht⟩
  taken := by
    intro a raw t h
    obtain ⟨hraw, hsplit⟩ := (hx s a raw t).mp h
    exact ⟨hsplit.1, (hd.takes hraw).returns⟩

end Reader

end Library
