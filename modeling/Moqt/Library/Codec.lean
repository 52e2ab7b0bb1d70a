import Moqt.Library.Decoder

/-! What is written is read back.  A decoder `Takes` a word when it takes exactly that word off any
slice that starts with it; words that are written one after the other are taken one after the other,
and a loop takes the words of its iterations.  A decoder `Reads` a format when the words of that
format are all that it takes. -/

namespace Library

/-! ### Outcomes -/

@[simp] theorem ok_bind {α β : Type} {x : Outcome α} {f : α → Outcome β} {b : β} :
    x >>= f = .ok b ↔ ∃ a, x = .ok a ∧ f a = .ok b := by
  cases x with
  | ok a => simp [bind, Outcome.bind]
  | err m | panic m => simp [bind, Outcome.bind]

@[simp] theorem ok_pure {α : Type} {a b : α} : (pure a : Outcome α) = .ok b ↔ a = b := by
  simp [pure]

@[simp] theorem ok_ensure {c : Bool} {m : String} {u : Unit} :
    Outcome.ensure c m = .ok u ↔ c = true := by
  cases c <;> simp [Outcome.ensure]

namespace Decoder

variable {α β σ : Type} {v w : List UInt8}

/-- `d` takes the word `w` off any slice that starts with it, and returns `a`. -/
def Takes (d : Decoder α) (w : List UInt8) (a : α) : Prop :=
  ∀ rest, d.Returns (w ++ rest) a rest

theorem Takes.returns {d : Decoder α} {a : α} (h : d.Takes w a) : d.Returns w a [] := by
  simpa using h []

theorem Takes.unique {d : Decoder α} {a a' : α} {r : List UInt8} (h : d.Takes w a)
    (h' : d.Returns w a' r) : a = a' ∧ r = [] := by
  obtain ⟨ha, hr⟩ := h.returns.unique h'
  exact ⟨ha, hr.symm⟩

theorem Takes.pure (a : α) : (pure a : Decoder α).Takes [] a := by
  simp [Takes]

theorem Takes.bind {x : Decoder α} {f : α → Decoder β} {a : α} {b : β} (hx : x.Takes v a)
    (hf : (f a).Takes w b) : (x >>= f).Takes (v ++ w) b := by
  intro rest
  rw [List.append_assoc]
  exact returns_bind.mpr ⟨a, w ++ rest, hx _, hf rest⟩

/-- The last word of a sequence is followed by nothing but the result. -/
theorem Takes.bind_pure {x : Decoder α} {f : α → β} {a : α} (hx : x.Takes w a) :
    (x >>= fun a => (Pure.pure (f a) : Decoder β)).Takes w (f a) :=
  fun rest => returns_bind.mpr ⟨a, rest, hx rest, returns_pure.mpr ⟨rfl, rfl⟩⟩

theorem Takes.ensure_bind {f : Unit → Decoder β} {c : Bool} {m : String} {b : β} (hc : c = true)
    (hf : (f ()).Takes w b) : (ensure c m >>= f).Takes w b :=
  fun rest => returns_bind.mpr ⟨(), _, returns_ensure.mpr ⟨hc, rfl⟩, hf rest⟩

theorem Takes.withCapacity_bind {f : Unit → Decoder β} {n size : Nat} {b : β}
    (hn : n * size ≤ isizeMax) (hf : (f ()).Takes w b) : (withCapacity n size >>= f).Takes w b :=
  fun rest => returns_bind.mpr ⟨(), _, returns_withCapacity.mpr ⟨hn, rfl⟩, hf rest⟩

/-- Bytes of a known number are taken as they are. -/
theorem Takes.block {f : List UInt8 → Decoder β} {n : Nat} {m : Nat → String} {b : β}
    (hn : v.length = n) (hf : (f v).Takes w b) :
    (do
      ensureLen n m
      let bytes ← slice n
      advance n
      f bytes : Decoder β).Takes (v ++ w) b := by
  intro rest
  subst hn
  simp only [returns_bind, returns_ensureLen, returns_slice, returns_advance]
  refine ⟨(), _, ⟨by simp, rfl⟩, v, _, ⟨by simp, by simp, rfl⟩, (), w ++ rest, ⟨by simp, ?_⟩,
    hf rest⟩
  rw [List.append_assoc, List.drop_left]

theorem Takes.block_pure {f : List UInt8 → β} {n : Nat} {m : Nat → String} (hn : v.length = n) :
    (do
      ensureLen n m
      let bytes ← slice n
      advance n
      return f bytes : Decoder β).Takes v (f v) := by
  have h := Takes.block (f := fun bytes => Pure.pure (f bytes)) (m := m) hn (Takes.pure (f v))
  rwa [List.append_nil] at h

/-! ### Loops -/

/-- `n` iterations of `body` take `w`, and change the loop state from `s` to `s'`. -/
inductive Iterates (body : σ → Decoder σ) : σ → (n : Nat) → (w : List UInt8) → σ → Prop
  | done (s : σ) : Iterates body s 0 [] s
  | step {s mid s' : σ} {n : Nat} {v w : List UInt8} (hbody : (body s).Takes v mid)
      (hrest : Iterates body mid n w s') : Iterates body s (n + 1) (v ++ w) s'

variable {body : σ → Decoder σ} {s s' : σ} {n : Nat}

theorem Iterates.forCountFrom (h : Iterates body s n w s') (done : Nat) :
    (forCountFrom body done n s).Takes w s' := by
  induction h generalizing done with
  | done s => exact fun rest => returns_forCountFrom_zero.mpr ⟨rfl, rfl⟩
  | @step s mid s' n v w hbody _ ih =>
    intro rest
    rw [List.append_assoc]
    exact returns_forCountFrom_succ.mpr ⟨mid, w ++ rest, hbody _, ih (done + 1) rest⟩

theorem Iterates.forCount (h : Iterates body s n w s') : (forCount n s body).Takes w s' :=
  h.forCountFrom 0

/-- Iterations that take at least a byte each go on until nothing is left. -/
theorem Iterates.whileNonEmpty (h : Iterates body s n w s')
    (htakes : ∀ s c s' r, (body s).Returns c s' r → r.length < c.length) :
    (whileNonEmpty s body).Returns w s' [] := by
  have loop : ∀ fuel done, w.length ≤ fuel →
      (whileNonEmptyFrom body fuel done s).Returns w s' [] := by
    induction h with
    | done s =>
      intro fuel done _
      cases fuel with
      | zero | succ fuel => exact ⟨rfl, rfl⟩
    | @step s mid s' n v w hbody _ ih =>
      intro fuel done hfuel
      have hpos := htakes _ _ _ _ hbody.returns
      have hne : v ++ w ≠ [] := by
        rintro hnil
        obtain ⟨rfl, -⟩ := List.append_eq_nil_iff.mp hnil
        exact absurd hpos (Nat.lt_irrefl _)
      rw [List.length_nil] at hpos
      rw [List.length_append] at hfuel
      cases fuel with
      | zero => omega
      | succ fuel =>
        exact (returns_whileNonEmptyFrom_succ hne).mpr
          ⟨mid, w, hbody w, ih fuel (done + 1) (by omega)⟩
  exact loop w.length 0 (Nat.le_refl _)

/-! ### Formats -/

/-- `d` takes a word of the format `F` off the front of the slice, and returns what it stands for;
it accepts nothing else. -/
def Reads (d : Decoder α) (F : α → List UInt8 → Prop) : Prop :=
  ∀ b a r, d.Returns b a r ↔ ∃ w, F a w ∧ b = w ++ r

variable {F : α → List UInt8 → Prop}

theorem Reads.takes {d : Decoder α} {a : α} (h : d.Reads F) (hw : F a w) : d.Takes w a :=
  fun _ => (h _ _ _).mpr ⟨w, hw, rfl⟩

/-- No word of a format is in front of another. -/
theorem Reads.append_inj {d : Decoder α} {a a' : α} {r r' : List UInt8} (h : d.Reads F)
    (hv : F a v) (hw : F a' w) (heq : v ++ r = w ++ r') : a = a' ∧ v = w ∧ r = r' := by
  have hreturns := h.takes hv r
  rw [heq] at hreturns
  obtain ⟨rfl, rfl⟩ := hreturns.unique (h.takes hw r')
  exact ⟨rfl, List.append_cancel_right heq, rfl⟩

theorem Reads.eq_of_isPrefix {d : Decoder α} {a a' : α} (h : d.Reads F) (hv : F a v) (hw : F a' w)
    (hle : v <+: w) : a = a' := by
  obtain ⟨r, rfl⟩ := hle
  exact (h.append_inj hv hw (List.append_nil _).symm).1

/-- The words of `n` iterations, one after the other. -/
def Chain (G : σ → σ → List UInt8 → Prop) : (n : Nat) → σ → σ → List UInt8 → Prop
  | 0, s, s', w => s = s' ∧ w = []
  | n + 1, s, s', w => ∃ mid u v, G s mid u ∧ Chain G n mid s' v ∧ w = u ++ v

theorem Reads.forCountFrom {G : σ → σ → List UInt8 → Prop} (h : ∀ s, (body s).Reads (G s))
    (done : Nat) : (forCountFrom body done n s).Reads (Chain G n s) := by
  intro b s' r
  induction n generalizing done s b with
  | zero => simp [returns_forCountFrom_zero, Chain]
  | succ n ih =>
    simp only [returns_forCountFrom_succ, h s b, ih (done + 1)]
    constructor
    · rintro ⟨mid, _, ⟨u, hu, rfl⟩, v, hv, rfl⟩
      exact ⟨u ++ v, ⟨mid, u, v, hu, hv, rfl⟩, (List.append_assoc u v r).symm⟩
    · rintro ⟨_, ⟨mid, u, v, hu, hv, rfl⟩, rfl⟩
      exact ⟨mid, v ++ r, ⟨u, hu, List.append_assoc u v r⟩, v, hv, rfl⟩

theorem Reads.forCount {G : σ → σ → List UInt8 → Prop} (h : ∀ s, (body s).Reads (G s)) :
    (forCount n s body).Reads (Chain G n s) :=
  Reads.forCountFrom h 0

/-! ### Normalisation -/

/-- What is read off the front of `b`, written again. -/
def normalise (d : Decoder α) (encode : α → Outcome (List UInt8)) (b : List UInt8) :
    Outcome (List UInt8) :=
  (d b).outcome >>= encode

/-- Whatever is accepted can be written again, in no more bytes than were taken, and these are read
as the same value, to the last one. -/
def Rewrites (d : Decoder α) (encode : α → Outcome (List UInt8)) : Prop :=
  ∀ b a rest, d.Returns b a rest → ∃ w, encode a = .ok w ∧ w.length + rest.length ≤ b.length ∧
    d.Returns w a []

/-- What is normal stays as it is. -/
theorem Rewrites.normalise_normal {d : Decoder α} {encode : α → Outcome (List UInt8)}
    {b : List UInt8} (h : d.Rewrites encode) (hw : d.normalise encode b = .ok w) :
    d.normalise encode w = .ok w := by
  obtain ⟨a, hread, hencode⟩ := ok_bind.mp hw
  obtain ⟨w', hencode', -, hreturns⟩ := h b a _ ⟨hread, rfl⟩
  obtain rfl := Outcome.ok.inj (hencode.symm.trans hencode')
  exact ok_bind.mpr ⟨a, hreturns.1, hencode⟩

end Decoder

end Library
