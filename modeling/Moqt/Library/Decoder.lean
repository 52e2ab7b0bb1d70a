import Mathlib.Algebra.Group.Nat.Defs
import Mathlib.Tactic.Common
import Mathlib.Data.List.Basic

/-! Decoders over a byte slice that is advanced in place.  A decoder's run ends in a value, in a
returned error, or in a panic, leaves the slice where the last step put it, and logs what it asks
of the machine: the capacity of each vector that it allocates ahead of its contents, and the number
of each loop iteration that it starts.  `Returns` is the relation between a slice, a value, and the
slice that remains; `Within` bounds what a run may do. -/

namespace Library

/-- How a call ends: with a value, with an error that it returns, or in a panic. -/
inductive Outcome (α : Type) where
  | ok (value : α)
  | err (message : String)
  | panic (message : String)
deriving DecidableEq, Repr

namespace Outcome

variable {α β : Type}

/-- The `?` operator: an error or a panic of the first call ends the caller too. -/
def bind : Outcome α → (α → Outcome β) → Outcome β
  | .ok a, f => f a
  | .err message, _ => .err message
  | .panic message, _ => .panic message

instance : Monad Outcome where
  pure := .ok
  bind := bind

def isOk : Outcome α → Bool
  | .ok _ => true
  | _ => false

def isPanic : Outcome α → Bool
  | .panic _ => true
  | _ => false

def ensure (condition : Bool) (message : String) : Outcome Unit :=
  if condition then .ok () else .err message

end Outcome

/-- The largest allocation, in bytes, that a 64-bit target can be asked for. -/
def isizeMax : Nat := 2 ^ 63 - 1

/-- What a run asks of the machine: room for a vector of `elements` elements of `size` bytes each,
or the start of iteration `number` of a loop, counted from 1. -/
inductive Event where
  | capacity (elements size : Nat)
  | iteration (number : Nat)
deriving DecidableEq, Repr

/-- An event that asks for at most `room` elements, in at most `isize::MAX` bytes, and is at most
the iteration `count` of its loop. -/
def Event.Within (room count : Nat) : Event → Prop
  | .capacity elements size => elements ≤ room ∧ elements * size ≤ isizeMax
  | .iteration number => number ≤ count

structure Run (α : Type) where
  outcome : Outcome α
  rest : List UInt8
  events : List Event

/-- A function of type `fn(&mut &[u8]) -> Result<α>`. -/
def Decoder (α : Type) : Type := List UInt8 → Run α

namespace Decoder

variable {α β σ : Type}

protected def pure (a : α) : Decoder α := fun b => ⟨.ok a, b, []⟩

protected def bind (x : Decoder α) (f : α → Decoder β) : Decoder β := fun b =>
  match (x b).outcome with
  | .ok a => ⟨(f a (x b).rest).outcome, (f a (x b).rest).rest,
      (x b).events ++ (f a (x b).rest).events⟩
  | .err message => ⟨.err message, (x b).rest, (x b).events⟩
  | .panic message => ⟨.panic message, (x b).rest, (x b).events⟩

instance : Monad Decoder where
  pure := Decoder.pure
  bind := Decoder.bind

def bail (message : String) : Decoder α := fun b => ⟨.err message, b, []⟩

def ensure (condition : Bool) (message : String) : Decoder Unit :=
  if condition then pure () else bail message

/-- `ensure!(buf.len() >= n, ..)`; the message may show the length. -/
def ensureLen (n : Nat) (message : Nat → String) : Decoder Unit := fun b =>
  if n ≤ b.length then ⟨.ok (), b, []⟩ else ⟨.err (message b.length), b, []⟩

/-- `buf[0]`, which panics on an empty slice. -/
def first : Decoder UInt8 := fun b =>
  match b with
  | [] => ⟨.panic "index out of bounds", b, []⟩
  | byte :: _ => ⟨.ok byte, b, []⟩

-- `&buf[..n]` and, in `advance`, `*buf = &buf[n..]`; both panic past the end.
def slice (n : Nat) : Decoder (List UInt8) := fun b =>
  if n ≤ b.length then ⟨.ok (b.take n), b, []⟩ else ⟨.panic "range end out of range", b, []⟩

def advance (n : Nat) : Decoder Unit := fun b =>
  if n ≤ b.length then ⟨.ok (), b.drop n, []⟩ else ⟨.panic "range start out of range", b, []⟩

/-- `Vec::with_capacity(n)` for elements of `size` bytes, which panics past `isize::MAX` bytes. -/
def withCapacity (n size : Nat) : Decoder Unit := fun b =>
  if n * size ≤ isizeMax then ⟨.ok (), b, [.capacity n size]⟩
  else ⟨.panic "capacity overflow", b, [.capacity n size]⟩

def tick (number : Nat) : Decoder Unit := fun b => ⟨.ok (), b, [.iteration number]⟩

/-- A decoder run on another slice, with what it leaves of that slice; the own slice stays. -/
def onSlice (other : List UInt8) (d : Decoder α) : Decoder (α × List UInt8) := fun b =>
  match (d other).outcome with
  | .ok a => ⟨.ok (a, (d other).rest), b, (d other).events⟩
  | .err message => ⟨.err message, b, (d other).events⟩
  | .panic message => ⟨.panic message, b, (d other).events⟩

def forCountFrom (body : σ → Decoder σ) : (done left : Nat) → σ → Decoder σ
  | _, 0, s => pure s
  | done, left + 1, s => do
    tick (done + 1)
    let s ← body s
    forCountFrom body (done + 1) left s

/-- `for _ in 0..count { .. }` over a loop state; `continue` is a body that returns. -/
def forCount (count : Nat) (s : σ) (body : σ → Decoder σ) : Decoder σ :=
  forCountFrom body 0 count s

def forEachFrom (body : σ → β → Decoder σ) : (done : Nat) → List β → σ → Decoder σ
  | _, [], s => pure s
  | done, x :: xs, s => do
    tick (done + 1)
    let s ← body s x
    forEachFrom body (done + 1) xs s

def forEach (xs : List β) (s : σ) (body : σ → β → Decoder σ) : Decoder σ :=
  forEachFrom body 0 xs s

/-- The iterations of a loop that runs until the slice is empty.  `fuel` bounds them; a run that
has used it up with bytes left counts as a panic. -/
def whileNonEmptyFrom (body : σ → Decoder σ) : (fuel done : Nat) → σ → Decoder σ
  | 0, _, s => fun b => if b.isEmpty then ⟨.ok s, b, []⟩ else ⟨.panic "no progress", b, []⟩
  | fuel + 1, done, s => fun b =>
    if b.isEmpty then ⟨.ok s, b, []⟩
    else (do
      tick (done + 1)
      let s ← body s
      whileNonEmptyFrom body fuel (done + 1) s : Decoder σ) b

/-- `while !buf.is_empty() { .. }`, with one iteration for each byte at most: a body that takes at
least one byte never uses the fuel up. -/
def whileNonEmpty (s : σ) (body : σ → Decoder σ) : Decoder σ := fun b =>
  whileNonEmptyFrom body b.length 0 s b

/-! ### What a run returns -/

/-- `d` returns `a` on the slice `b` and leaves `rest`. -/
def Returns (d : Decoder α) (b : List UInt8) (a : α) (rest : List UInt8) : Prop :=
  (d b).outcome = .ok a ∧ (d b).rest = rest

instance [DecidableEq α] (d : Decoder α) (b : List UInt8) (a : α) (rest : List UInt8) :
    Decidable (d.Returns b a rest) :=
  inferInstanceAs (Decidable (_ ∧ _))

theorem Returns.unique {d : Decoder α} {b : List UInt8} {a a' : α} {r r' : List UInt8}
    (h : d.Returns b a r) (h' : d.Returns b a' r') : a = a' ∧ r = r' :=
  ⟨Outcome.ok.inj (h.1.symm.trans h'.1), h.2.symm.trans h'.2⟩

/-- A run that neither returns a value nor panics ends in an error. -/
theorem exists_err_of_not_returns {d : Decoder α} {b : List UInt8}
    (hpanic : (d b).outcome.isPanic = false) (h : ∀ a rest, ¬d.Returns b a rest) :
    ∃ m, (d b).outcome = .err m := by
  cases houtcome : (d b).outcome with
  | ok a => exact absurd ⟨houtcome, rfl⟩ (h a _)
  | err m => exact ⟨m, rfl⟩
  | panic m =>
    rw [houtcome] at hpanic
    cases hpanic

@[simp] theorem returns_pure {a a' : α} {b r : List UInt8} :
    (pure a : Decoder α).Returns b a' r ↔ a = a' ∧ b = r := by
  simp [Returns, pure, Decoder.pure]

@[simp] theorem returns_bind {x : Decoder α} {f : α → Decoder β} {b r : List UInt8} {c : β} :
    (x >>= f).Returns b c r ↔ ∃ a mid, x.Returns b a mid ∧ (f a).Returns mid c r := by
  constructor
  · intro h
    simp only [Returns, bind, Decoder.bind] at h
    cases hx : (x b).outcome with
    | ok a =>
      rw [hx] at h
      exact ⟨a, (x b).rest, ⟨hx, rfl⟩, h⟩
    | err m | panic m => rw [hx] at h; simp at h
  · rintro ⟨a, mid, ⟨hx, rfl⟩, hf⟩
    simpa [Returns, bind, Decoder.bind, hx] using hf

@[simp] theorem returns_map {f : α → β} {x : Decoder α} {b r : List UInt8} {c : β} :
    (f <$> x).Returns b c r ↔ ∃ a, x.Returns b a r ∧ f a = c := by
  rw [show f <$> x = x >>= fun a => pure (f a) from rfl]
  simp

theorem returns_map_apply {f : α → β} (hf : Function.Injective f) {x : Decoder α}
    {b r : List UInt8} {a : α} : (f <$> x).Returns b (f a) r ↔ x.Returns b a r := by
  rw [returns_map]
  constructor
  · rintro ⟨a', h, heq⟩
    rwa [← hf heq]
  · intro h
    exact ⟨a, h, rfl⟩

@[simp] theorem returns_bail {m : String} {b r : List UInt8} {a : α} :
    ¬(bail m : Decoder α).Returns b a r := by
  simp [Returns, bail]

@[simp] theorem returns_ensure {c : Bool} {m : String} {b r : List UInt8} {u : Unit} :
    (ensure c m).Returns b u r ↔ c = true ∧ b = r := by
  cases c <;> simp [ensure]

@[simp] theorem returns_ensureLen {n : Nat} {m : Nat → String} {b r : List UInt8} {u : Unit} :
    (ensureLen n m).Returns b u r ↔ n ≤ b.length ∧ b = r := by
  by_cases h : n ≤ b.length <;> simp [ensureLen, Returns, h]

@[simp] theorem returns_first {b r : List UInt8} {byte : UInt8} :
    first.Returns b byte r ↔ b.head? = some byte ∧ b = r := by
  cases b <;> simp [first, Returns]

@[simp] theorem returns_slice {n : Nat} {b r bytes : List UInt8} :
    (slice n).Returns b bytes r ↔ n ≤ b.length ∧ b.take n = bytes ∧ b = r := by
  by_cases h : n ≤ b.length <;> simp [slice, Returns, h]

@[simp] theorem returns_advance {n : Nat} {b r : List UInt8} {u : Unit} :
    (advance n).Returns b u r ↔ n ≤ b.length ∧ b.drop n = r := by
  by_cases h : n ≤ b.length <;> simp [advance, Returns, h]

@[simp] theorem returns_withCapacity {n size : Nat} {b r : List UInt8} {u : Unit} :
    (withCapacity n size).Returns b u r ↔ n * size ≤ isizeMax ∧ b = r := by
  by_cases h : n * size ≤ isizeMax <;> simp [withCapacity, Returns, h]

@[simp] theorem returns_tick {n : Nat} {b r : List UInt8} {u : Unit} :
    (tick n).Returns b u r ↔ b = r := by
  simp [tick, Returns]

@[simp] theorem returns_onSlice {other b r : List UInt8} {d : Decoder α} {p : α × List UInt8} :
    (onSlice other d).Returns b p r ↔ d.Returns other p.1 p.2 ∧ b = r := by
  obtain ⟨a, left⟩ := p
  cases h : (d other).outcome <;> simp [onSlice, Returns, h, and_assoc]

@[simp] theorem returns_ite {p : Prop} [Decidable p] {x y : Decoder α} {b r : List UInt8} {a : α} :
    (if p then x else y).Returns b a r ↔ (p ∧ x.Returns b a r) ∨ (¬p ∧ y.Returns b a r) := by
  by_cases h : p <;> simp [h]

@[simp] theorem returns_forCountFrom_zero {body : σ → Decoder σ} {done : Nat} {s s' : σ}
    {b r : List UInt8} : (forCountFrom body done 0 s).Returns b s' r ↔ s = s' ∧ b = r := by
  simp [forCountFrom]

theorem returns_forCountFrom_succ {body : σ → Decoder σ} {done left : Nat} {s s' : σ}
    {b r : List UInt8} :
    (forCountFrom body done (left + 1) s).Returns b s' r ↔
      ∃ mid m, (body s).Returns b mid m ∧
        (forCountFrom body (done + 1) left mid).Returns m s' r := by
  simp [forCountFrom]

theorem returns_forEachFrom_pure {f : σ → β → σ} {done : Nat} {xs : List β} {s s' : σ}
    {b r : List UInt8} :
    (forEachFrom (fun s x => pure (f s x)) done xs s).Returns b s' r ↔
      xs.foldl f s = s' ∧ b = r := by
  induction xs generalizing done s with
  | nil => simp [forEachFrom]
  | cons x xs ih => simp [forEachFrom, ih]

theorem returns_whileNonEmptyFrom_nil {body : σ → Decoder σ} {fuel done : Nat} {s s' : σ}
    {r : List UInt8} : (whileNonEmptyFrom body fuel done s).Returns [] s' r ↔ s = s' ∧ r = [] := by
  cases fuel <;> simp [Returns, whileNonEmptyFrom, eq_comm]

theorem returns_whileNonEmptyFrom_zero {body : σ → Decoder σ} {done : Nat} {s s' : σ}
    {b r : List UInt8} (hb : b ≠ []) : ¬(whileNonEmptyFrom body 0 done s).Returns b s' r := by
  simp [Returns, whileNonEmptyFrom, hb]

theorem returns_whileNonEmptyFrom_succ {body : σ → Decoder σ} {fuel done : Nat} {s s' : σ}
    {b r : List UInt8} (hb : b ≠ []) :
    (whileNonEmptyFrom body (fuel + 1) done s).Returns b s' r ↔
      ∃ mid m, (body s).Returns b mid m ∧
        (whileNonEmptyFrom body fuel (done + 1) mid).Returns m s' r := by
  have hne : b.isEmpty = false := by simpa using hb
  have hstep : (whileNonEmptyFrom body (fuel + 1) done s).Returns b s' r ↔
      (do
        tick (done + 1)
        let s ← body s
        whileNonEmptyFrom body fuel (done + 1) s : Decoder σ).Returns b s' r := by
    simp only [Returns, whileNonEmptyFrom, hne, Bool.false_eq_true, if_false]
  rw [hstep]
  simp

/-! ### Decoders that read a prefix -/

/-- What `d` returns depends only on the bytes that it takes: bytes after them change nothing. -/
def Local (d : Decoder α) : Prop :=
  ∀ b a r t, d.Returns b a r → d.Returns (b ++ t) a (r ++ t)

theorem Local.pure (a : α) : (pure a : Decoder α).Local := by
  intro b a' r t h
  simp only [returns_pure] at h ⊢
  exact ⟨h.1, by rw [h.2]⟩

theorem Local.bind {x : Decoder α} {f : α → Decoder β} (hx : x.Local) (hf : ∀ a, (f a).Local) :
    (x >>= f).Local := by
  intro b c r t h
  rw [returns_bind] at h ⊢
  obtain ⟨a, mid, h1, h2⟩ := h
  exact ⟨a, mid ++ t, hx _ _ _ t h1, hf a _ _ _ t h2⟩

theorem Local.bail (m : String) : (bail m : Decoder α).Local :=
  fun _ _ _ _ h => absurd h returns_bail

theorem Local.ensure (c : Bool) (m : String) : (ensure c m).Local := by
  intro b a r t h
  simp only [returns_ensure] at h ⊢
  exact ⟨h.1, by rw [h.2]⟩

theorem Local.ensureLen (n : Nat) (m : Nat → String) : (ensureLen n m).Local := by
  intro b a r t h
  simp only [returns_ensureLen, List.length_append] at h ⊢
  exact ⟨by omega, by rw [h.2]⟩

theorem Local.first : first.Local := by
  intro b a r t h
  cases b with
  | nil => simp at h
  | cons byte b => simp only [returns_first] at h ⊢; exact ⟨by simpa using h.1, by rw [h.2]⟩

theorem Local.slice (n : Nat) : (slice n).Local := by
  intro b a r t h
  simp only [returns_slice, List.length_append] at h ⊢
  exact ⟨by omega, by rw [List.take_append_of_le_length h.1]; exact h.2.1, by rw [h.2.2]⟩

theorem Local.advance (n : Nat) : (advance n).Local := by
  intro b a r t h
  simp only [returns_advance, List.length_append] at h ⊢
  exact ⟨by omega, by rw [List.drop_append_of_le_length h.1, h.2]⟩

theorem Local.withCapacity (n size : Nat) : (withCapacity n size).Local := by
  intro b a r t h
  simp only [returns_withCapacity] at h ⊢
  exact ⟨h.1, by rw [h.2]⟩

theorem Local.onSlice (other : List UInt8) (d : Decoder α) : (onSlice other d).Local := by
  intro b a r t h
  simp only [returns_onSlice] at h ⊢
  exact ⟨h.1, by rw [h.2]⟩

theorem Local.tick (n : Nat) : (tick n).Local := by
  intro b a r t h
  simp only [returns_tick] at h ⊢
  rw [h]

theorem Local.ite {p : Prop} [Decidable p] {x y : Decoder α} (hx : x.Local) (hy : y.Local) :
    (if p then x else y).Local := by
  split
  · exact hx
  · exact hy

theorem Local.forCount {body : σ → Decoder σ} (h : ∀ s, (body s).Local) (count : Nat) (s : σ) :
    (forCount count s body).Local := by
  have loop : ∀ left done s, (forCountFrom body done left s).Local := by
    intro left
    induction left with
    | zero => exact fun _ s => Local.pure s
    | succ left ih =>
      exact fun done s => (Local.tick _).bind fun _ => (h s).bind fun s' => ih (done + 1) s'
  exact loop count 0 s

theorem Local.forEach {body : σ → β → Decoder σ} (h : ∀ s x, (body s x).Local) (xs : List β)
    (s : σ) : (forEach xs s body).Local := by
  have loop : ∀ (xs : List β) done s, (forEachFrom body done xs s).Local := by
    intro xs
    induction xs with
    | nil => exact fun _ s => Local.pure s
    | cons x xs ih =>
      exact fun done s => (Local.tick _).bind fun _ => (h s x).bind fun s' => ih (done + 1) s'
  exact loop xs 0 s

/-! ### What a failure leaves of the slice -/

/-- A run leaves the slice where it was, however it ends. -/
def Peeks (d : Decoder α) : Prop := ∀ b, (d b).rest = b

/-- A run that does not return a value leaves the slice where it was. -/
def Restores (d : Decoder α) : Prop := ∀ b, (d b).outcome.isOk = false → (d b).rest = b

theorem Peeks.restores {d : Decoder α} (h : d.Peeks) : d.Restores := fun b _ => h b

theorem Peeks.pure (a : α) : (pure a : Decoder α).Peeks := fun _ => rfl

theorem Peeks.bail (m : String) : (bail m : Decoder α).Peeks := fun _ => rfl

theorem Peeks.ensureLen (n : Nat) (m : Nat → String) : (ensureLen n m).Peeks := by
  intro b
  by_cases h : n ≤ b.length <;> simp [Decoder.ensureLen, h]

theorem Peeks.first : first.Peeks := by
  intro b
  cases b with
  | nil => rfl
  | cons byte b => rfl

theorem Peeks.slice (n : Nat) : (slice n).Peeks := by
  intro b
  by_cases h : n ≤ b.length <;> simp [Decoder.slice, h]

theorem Peeks.tick (n : Nat) : (tick n).Peeks := fun _ => rfl

theorem Peeks.ite {p : Prop} [Decidable p] {x y : Decoder α} (hx : x.Peeks) (hy : y.Peeks) :
    (if p then x else y).Peeks := by
  split
  · exact hx
  · exact hy

theorem Peeks.bind {x : Decoder α} {f : α → Decoder β} (hx : x.Peeks) (hf : ∀ a, (f a).Peeks) :
    (x >>= f).Peeks := by
  intro b
  simp only [Bind.bind, Decoder.bind]
  cases (x b).outcome with
  | ok a => exact (hf a _).trans (hx b)
  | err m | panic m => exact hx b

theorem Peeks.forEach {body : σ → β → Decoder σ} (h : ∀ s x, (body s x).Peeks) (xs : List β)
    (s : σ) : (forEach xs s body).Peeks := by
  have loop : ∀ (xs : List β) done s, (forEachFrom body done xs s).Peeks := by
    intro xs
    induction xs with
    | nil => exact fun _ s => Peeks.pure s
    | cons x xs ih =>
      exact fun done s => (Peeks.tick _).bind fun _ => (h s x).bind fun s' => ih (done + 1) s'
  exact loop xs 0 s

/-- What has only looked at the slice may be followed by what restores it. -/
theorem Restores.bind {x : Decoder α} {f : α → Decoder β} (hx : x.Peeks)
    (hf : ∀ a, (f a).Restores) : (x >>= f).Restores := by
  intro b
  simp only [Bind.bind, Decoder.bind]
  cases (x b).outcome with
  | ok a =>
    intro h
    exact (hf a _ h).trans (hx b)
  | err m | panic m => exact fun _ => hx b

/-- The slice is advanced last. -/
theorem Restores.advance (n : Nat) (a : α) :
    (do
      advance n
      return a : Decoder α).Restores := by
  intro b
  by_cases h : n ≤ b.length
  · simp [Bind.bind, Decoder.bind, Decoder.advance, h, Pure.pure, Decoder.pure, Outcome.isOk]
  · simp [Bind.bind, Decoder.bind, Decoder.advance, h]

/-! ### What a run logs -/

/-- The run of `d` on the slice `b` logs the event `e`. -/
def Logs (d : Decoder α) (b : List UInt8) (e : Event) : Prop := e ∈ (d b).events

theorem Logs.withCapacity (n size : Nat) (b : List UInt8) :
    (withCapacity n size).Logs b (.capacity n size) := by
  by_cases h : n * size ≤ isizeMax <;> simp [Logs, Decoder.withCapacity, h]

theorem Logs.bind_left {x : Decoder α} {f : α → Decoder β} {b : List UInt8} {e : Event}
    (h : x.Logs b e) : (x >>= f).Logs b e := by
  simp only [Logs, Bind.bind, Decoder.bind] at h ⊢
  cases (x b).outcome with
  | ok a => exact List.mem_append_left _ h
  | err m | panic m => exact h

theorem Logs.bind_right {x : Decoder α} {f : α → Decoder β} {b r : List UInt8} {a : α} {e : Event}
    (hx : x.Returns b a r) (h : (f a).Logs r e) : (x >>= f).Logs b e := by
  obtain ⟨hx, rfl⟩ := hx
  simp only [Logs, Bind.bind, Decoder.bind, hx]
  exact List.mem_append_right _ h

theorem Logs.onSlice {other b : List UInt8} {d : Decoder α} {e : Event} (h : d.Logs other e) :
    (onSlice other d).Logs b e := by
  simp only [Logs, Decoder.onSlice] at h ⊢
  cases (d other).outcome with
  | ok a | err m | panic m => exact h

/-! ### What a run may do -/

/-- On the slice `b`, `d` ends without a panic, does not lengthen the slice, asks for at most
`room` elements in advance, and starts no loop's iteration past the `count`-th. -/
structure Within (room count : Nat) (d : Decoder α) (b : List UInt8) : Prop where
  noPanic : (d b).outcome.isPanic = false
  shrinks : (d b).rest.length ≤ b.length
  events : ∀ e ∈ (d b).events, e.Within room count

namespace Within

variable {room count : Nat} {b : List UInt8}

theorem quiet {d : Decoder α} (hp : (d b).outcome.isPanic = false)
    (hs : (d b).rest.length ≤ b.length) (he : (d b).events = []) : Within room count d b :=
  ⟨hp, hs, by simp [he]⟩

theorem returns_le {d : Decoder α} (h : Within room count d b) {a : α} {r : List UInt8}
    (hr : d.Returns b a r) : r.length ≤ b.length :=
  hr.2 ▸ h.shrinks

theorem pure (a : α) : Within room count (pure a : Decoder α) b :=
  quiet rfl (Nat.le_refl _) rfl

theorem bail (m : String) : Within room count (bail m : Decoder α) b :=
  quiet rfl (Nat.le_refl _) rfl

theorem ensure (c : Bool) (m : String) : Within room count (ensure c m) b := by
  cases c <;> exact quiet rfl (Nat.le_refl _) rfl

theorem ensureLen (n : Nat) (m : Nat → String) : Within room count (ensureLen n m) b := by
  by_cases h : n ≤ b.length <;>
    exact quiet (by simp [Decoder.ensureLen, h, Outcome.isPanic]) (by simp [Decoder.ensureLen, h])
      (by simp [Decoder.ensureLen, h])

theorem first (h : b ≠ []) : Within room count first b := by
  cases b with
  | nil => exact absurd rfl h
  | cons byte b => exact quiet rfl (Nat.le_refl _) rfl

theorem slice {n : Nat} (h : n ≤ b.length) : Within room count (slice n) b :=
  quiet (by simp [Decoder.slice, h, Outcome.isPanic]) (by simp [Decoder.slice, h])
    (by simp [Decoder.slice, h])

theorem advance {n : Nat} (h : n ≤ b.length) : Within room count (advance n) b :=
  quiet (by simp [Decoder.advance, h, Outcome.isPanic]) (by simp [Decoder.advance, h])
    (by simp [Decoder.advance, h])

theorem withCapacity {n size : Nat} (hn : n ≤ room) (hs : n * size ≤ isizeMax) :
    Within room count (withCapacity n size) b := by
  refine ⟨by simp [Decoder.withCapacity, hs, Outcome.isPanic], by simp [Decoder.withCapacity, hs],
    ?_⟩
  simp only [Decoder.withCapacity, hs, if_true, List.mem_singleton, forall_eq]
  exact ⟨hn, hs⟩

theorem tick {n : Nat} (h : n ≤ count) : Within room count (tick n) b :=
  ⟨rfl, Nat.le_refl _, fun e he => by
    obtain rfl : e = .iteration n := by simpa [Decoder.tick] using he
    exact h⟩

/-- The second decoder has to stay within the bounds on every slice that the first can leave. -/
theorem bind {x : Decoder α} {f : α → Decoder β} (hx : Within room count x b)
    (hf : ∀ a r, x.Returns b a r → r.length ≤ b.length → Within room count (f a) r) :
    Within room count (x >>= f) b := by
  obtain ⟨hp, hs, he⟩ := hx
  cases hc : (x b).outcome with
  | ok a =>
    have hfa := hf a _ ⟨hc, rfl⟩ hs
    refine ⟨?_, ?_, ?_⟩
    · simpa [Bind.bind, Decoder.bind, hc] using hfa.noPanic
    · simpa [Bind.bind, Decoder.bind, hc] using Nat.le_trans hfa.shrinks hs
    · intro e hmem
      simp only [Bind.bind, Decoder.bind, hc, List.mem_append] at hmem
      exact hmem.elim (he e) (hfa.events e)
  | err m =>
    refine ⟨?_, ?_, ?_⟩ <;> simp only [Bind.bind, Decoder.bind, hc]
    · rfl
    · exact hs
    · exact he
  | panic m => simp [hc, Outcome.isPanic] at hp

theorem onSlice {other : List UInt8} {d : Decoder α} (h : Within room count d other) :
    Within room count (onSlice other d) b := by
  obtain ⟨hp, -, he⟩ := h
  cases hc : (d other).outcome with
  | ok a | err m =>
    refine ⟨?_, ?_, ?_⟩ <;> simp only [Decoder.onSlice, hc]
    · rfl
    · exact Nat.le_refl _
    · exact he
  | panic m => simp [hc, Outcome.isPanic] at hp

theorem ite {p : Prop} [Decidable p] {x y : Decoder α} (hx : p → Within room count x b)
    (hy : ¬p → Within room count y b) : Within room count (if p then x else y) b := by
  split
  · exact hx ‹_›
  · exact hy ‹_›

/-- A counted loop whose body takes at least a byte starts at most one iteration more than it has
bytes. -/
theorem forCountFrom {body : σ → Decoder σ}
    (hbody : ∀ s c, c.length ≤ b.length → Within room count (body s) c)
    (htakes : ∀ s c s' r, (body s).Returns c s' r → r.length < c.length) {done : Nat} (left : Nat)
    (s : σ) (hdone : done + b.length < count) :
    Within room count (forCountFrom body done left s) b := by
  induction left generalizing done s b with
  | zero => exact Within.pure s
  | succ left ih =>
    refine (Within.tick (by omega)).bind fun _ r hr _ => ?_
    obtain rfl := returns_tick.mp hr
    refine (hbody s b (Nat.le_refl _)).bind fun s' r hs' hle => ?_
    have := htakes s b s' r hs'
    exact ih (fun s c hc => hbody s c (by omega)) s' (by omega)

theorem forCount {body : σ → Decoder σ}
    (hbody : ∀ s c, c.length ≤ b.length → Within room count (body s) c)
    (htakes : ∀ s c s' r, (body s).Returns c s' r → r.length < c.length) (n : Nat) (s : σ)
    (hcount : b.length < count) : Within room count (forCount n s body) b :=
  forCountFrom hbody htakes n s (by omega)

theorem forEachFrom {body : σ → β → Decoder σ} {xs : List β}
    (hbody : ∀ s x c, c.length ≤ b.length → Within room count (body s x) c) {done : Nat} (s : σ)
    (hdone : done + xs.length ≤ count) : Within room count (forEachFrom body done xs s) b := by
  induction xs generalizing done s b with
  | nil => exact Within.pure s
  | cons x xs ih =>
    simp only [List.length_cons] at hdone
    refine (Within.tick (by omega)).bind fun _ r hr _ => ?_
    obtain rfl := returns_tick.mp hr
    refine (hbody s x b (Nat.le_refl _)).bind fun s' r _ hle => ?_
    exact ih (fun s x c hc => hbody s x c (by omega)) s' (by omega)

theorem whileNonEmptyFrom {body : σ → Decoder σ}
    (hbody : ∀ s c, c.length ≤ b.length → Within room count (body s) c)
    (htakes : ∀ s c s' r, (body s).Returns c s' r → r.length < c.length) {fuel done : Nat} (s : σ)
    (hfuel : b.length ≤ fuel) (hdone : done + b.length ≤ count) :
    Within room count (whileNonEmptyFrom body fuel done s) b := by
  induction fuel generalizing done s b with
  | zero =>
    obtain rfl : b = [] := List.length_eq_zero_iff.mp (by omega)
    exact quiet rfl (Nat.le_refl _) rfl
  | succ fuel ih =>
    by_cases hb : b = []
    · subst hb
      exact quiet rfl (Nat.le_refl _) rfl
    · have hpos := List.length_pos_of_ne_nil hb
      have step : Within room count (do
          Decoder.tick (done + 1)
          let s ← body s
          Decoder.whileNonEmptyFrom body fuel (done + 1) s : Decoder σ) b := by
        refine (Within.tick (by omega)).bind fun _ r hr _ => ?_
        obtain rfl := returns_tick.mp hr
        refine (hbody s b (Nat.le_refl _)).bind fun s' r hs' hle => ?_
        have := htakes s b s' r hs'
        exact ih (fun s c hc => hbody s c (by omega)) s' (by omega) (by omega)
      have hemp : b.isEmpty = false := by simpa using hb
      exact ⟨by simpa [Decoder.whileNonEmptyFrom, hemp] using step.noPanic,
        by simpa [Decoder.whileNonEmptyFrom, hemp] using step.shrinks,
        by simpa [Decoder.whileNonEmptyFrom, hemp] using step.events⟩

theorem whileNonEmpty {body : σ → Decoder σ}
    (hbody : ∀ s c, c.length ≤ b.length → Within room count (body s) c)
    (htakes : ∀ s c s' r, (body s).Returns c s' r → r.length < c.length) (s : σ)
    (hcount : b.length ≤ count) : Within room count (whileNonEmpty s body) b := by
  have h : Within room count (Decoder.whileNonEmptyFrom body b.length 0 s) b :=
    whileNonEmptyFrom hbody htakes s (Nat.le_refl _) (by omega)
  exact ⟨h.noPanic, h.shrinks, h.events⟩

end Within

end Decoder

end Library
