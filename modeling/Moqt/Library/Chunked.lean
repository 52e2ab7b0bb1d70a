import Moqt.Library.Codec
import Moqt.Library.Stream

/-! Streams that arrive in chunks.  A reader keeps a buffer, and waits for more chunks when it has
too few bytes; where one chunk ends and the next one starts makes no difference to what it reads.
`Reads` says which words a reader takes, and `Collects` is the loop that reads items until there are
none. -/

namespace Library

/-- What is left of a stream: the bytes in the buffer, the chunks that have not been asked for, and
the way in which it ends. -/
structure Chunked where
  buffer : List UInt8 := []
  chunks : List (List UInt8)
  ending : Ending
deriving DecidableEq, Repr

namespace Chunked

def bytes (r : Chunked) : List UInt8 := r.buffer ++ r.chunks.flatten

/-- The bytes `taken` are in front of what `t` is left with, and `t` ends as `r` does. -/
def Splits (r : Chunked) (taken : List UInt8) (t : Chunked) : Prop :=
  r.bytes = taken ++ t.bytes ∧ r.ending = t.ending

theorem Splits.refl (r : Chunked) : r.Splits [] r := ⟨rfl, rfl⟩

theorem Splits.trans {r t u : Chunked} {a b : List UInt8} (h : r.Splits a t) (h' : t.Splits b u) :
    r.Splits (a ++ b) u := by
  refine ⟨?_, h.2.trans h'.2⟩
  rw [h.1, h'.1, List.append_assoc]

/-- Chunks are awaited and appended to the buffer until it has `n` bytes. -/
def fillFrom (n : Nat) (ending : Ending) : List (List UInt8) → List UInt8 → Chunked
  | [], buffer => { buffer, chunks := [], ending }
  | chunk :: chunks, buffer =>
    if buffer.length < n then fillFrom n ending chunks (buffer ++ chunk)
    else { buffer, chunks := chunk :: chunks, ending }

def fill (n : Nat) (r : Chunked) : Chunked := fillFrom n r.ending r.chunks r.buffer

theorem fillFrom_splits (n : Nat) (ending : Ending) (chunks : List (List UInt8))
    (buffer : List UInt8) :
    Splits { buffer, chunks, ending } [] (fillFrom n ending chunks buffer) := by
  induction chunks generalizing buffer with
  | nil => exact .refl _
  | cons chunk chunks ih =>
    rw [fillFrom]
    split
    · obtain ⟨hbytes, hending⟩ := ih (buffer ++ chunk)
      refine ⟨?_, hending⟩
      rw [← hbytes]
      simp [bytes]
    · exact .refl _

/-- Filling the buffer changes neither what is left nor the ending. -/
theorem fill_splits (n : Nat) (r : Chunked) : r.Splits [] (r.fill n) :=
  fillFrom_splits n r.ending r.chunks r.buffer

theorem fillFrom_filled (n : Nat) (ending : Ending) (chunks : List (List UInt8))
    (buffer : List UInt8) : n ≤ (fillFrom n ending chunks buffer).buffer.length ∨
      (fillFrom n ending chunks buffer).chunks = [] := by
  induction chunks generalizing buffer with
  | nil => exact .inr rfl
  | cons chunk chunks ih =>
    rw [fillFrom]
    split
    next hshort => exact ih (buffer ++ chunk)
    next hfilled => exact .inl (Nat.le_of_not_lt hfilled)

/-- The buffer has `n` bytes if as many are left. -/
theorem fill_length_iff {n : Nat} {r : Chunked} :
    n ≤ (r.fill n).buffer.length ↔ n ≤ r.bytes.length := by
  have hbytes : r.bytes = (r.fill n).bytes := (fill_splits n r).1
  rw [hbytes, bytes, List.length_append]
  constructor
  · omega
  · intro hle
    rcases fillFrom_filled n r.ending r.chunks r.buffer with hfilled | hnil
    · exact hfilled
    · rw [show (r.fill n).chunks = [] from hnil] at hle
      simpa using hle

/-- The first `n` bytes are taken off the buffer. -/
theorem splits_take (n : Nat) (r : Chunked) :
    r.Splits (r.buffer.take n) { r with buffer := r.buffer.drop n } := by
  refine ⟨?_, rfl⟩
  rw [bytes, bytes, ← List.append_assoc, List.take_append_drop]

end Chunked

/-- A function that awaits what it reads. -/
def ChunkReader (α : Type) : Type := Chunked → Outcome (α × Chunked)

namespace ChunkReader

variable {α β : Type}

protected def pure (a : α) : ChunkReader α := fun r => .ok (a, r)

protected def bind (x : ChunkReader α) (f : α → ChunkReader β) : ChunkReader β := fun r =>
  (x r).bind fun p => f p.1 p.2

instance : Monad ChunkReader where
  pure := ChunkReader.pure
  bind := ChunkReader.bind

/-- The result of a call that reads nothing. -/
def ofOutcome (o : Outcome α) : ChunkReader α := fun r => o.bind fun a => .ok (a, r)

/-- Bytes that are read if they are there. -/
def optional (present : Bool) (x : ChunkReader (List UInt8)) : ChunkReader (List UInt8) :=
  if present then x else pure []

@[simp] theorem pure_ok {a a' : α} {r r' : Chunked} :
    (pure a : ChunkReader α) r = .ok (a', r') ↔ a = a' ∧ r = r' := by
  simp [pure, ChunkReader.pure]

@[simp] theorem bind_ok {x : ChunkReader α} {f : α → ChunkReader β} {r r' : Chunked} {b : β} :
    (x >>= f) r = .ok (b, r') ↔ ∃ a mid, x r = .ok (a, mid) ∧ f a mid = .ok (b, r') := by
  show Outcome.bind (x r) _ = _ ↔ _
  cases x r with
  | ok p =>
    obtain ⟨a, mid⟩ := p
    simp [Outcome.bind]
  | err m | panic m => simp [Outcome.bind]

@[simp] theorem map_ok {f : α → β} {x : ChunkReader α} {r r' : Chunked} {b : β} :
    (f <$> x) r = .ok (b, r') ↔ ∃ a, x r = .ok (a, r') ∧ f a = b := by
  rw [show f <$> x = x >>= fun a => pure (f a) from rfl]
  simp

/-- The reader takes the words of the format `F`, whatever follows them and however they are cut
into chunks, and nothing else. -/
structure Reads (x : ChunkReader α) (F : α → List UInt8 → Prop) : Prop where
  sound : ∀ {r r' : Chunked} {a : α}, x r = .ok (a, r') → ∃ w, F a w ∧ r.Splits w r'
  complete : ∀ {r : Chunked} {a : α} {w rest : List UInt8}, F a w → r.bytes = w ++ rest →
    ∃ r', x r = .ok (a, r') ∧ r.Splits w r'

theorem Reads.congr {x : ChunkReader α} {F G : α → List UInt8 → Prop} (hx : x.Reads F)
    (h : ∀ a w, F a w ↔ G a w) : x.Reads G := by
  obtain rfl : F = G := funext fun a => funext fun w => propext (h a w)
  exact hx

/-- The word in front is known from the bytes, and so is what it is read as. -/
theorem Reads.unique {x : ChunkReader α} {F : α → List UInt8 → Prop} (hx : x.Reads F) {a a' : α}
    {w w' rest rest' : List UInt8} (h : F a w) (h' : F a' w') (heq : w ++ rest = w' ++ rest') :
    a = a' ∧ rest = rest' := by
  have hbytes : Chunked.bytes { chunks := [w ++ rest], ending := .finished } = w ++ rest := by
    simp [Chunked.bytes]
  obtain ⟨r, hread, hsplit⟩ := hx.complete h hbytes
  obtain ⟨r', hread', hsplit'⟩ := hx.complete h' (hbytes.trans heq)
  obtain ⟨rfl, rfl⟩ := Prod.mk.inj (Outcome.ok.inj (hread.symm.trans hread'))
  have hrest := List.append_cancel_left (hbytes.symm.trans hsplit.1)
  have hrest' := List.append_cancel_left ((hbytes.trans heq).symm.trans hsplit'.1)
  exact ⟨rfl, hrest.trans hrest'.symm⟩

theorem Reads.pure (a : α) : (pure a : ChunkReader α).Reads fun a' w => a = a' ∧ w = [] where
  sound := by
    intro r r' a' h
    obtain ⟨rfl, rfl⟩ := pure_ok.mp h
    exact ⟨[], ⟨rfl, rfl⟩, .refl r⟩
  complete := by
    rintro r a' w rest ⟨rfl, rfl⟩ -
    exact ⟨r, rfl, .refl r⟩

theorem Reads.ofOutcome (o : Outcome α) :
    (ofOutcome o).Reads fun a w => o = .ok a ∧ w = [] where
  sound := by
    intro r r' a h
    cases o with
    | ok a' =>
      cases h
      exact ⟨[], ⟨rfl, rfl⟩, .refl r⟩
    | err m | panic m => cases h
  complete := by
    rintro r a w rest ⟨rfl, rfl⟩ -
    exact ⟨r, rfl, .refl r⟩

/-- Words that are read one after the other are read as one. -/
theorem Reads.bind {x : ChunkReader α} {f : α → ChunkReader β} {F : α → List UInt8 → Prop}
    {G : α → β → List UInt8 → Prop} (hx : x.Reads F) (hf : ∀ a, (f a).Reads (G a)) :
    (x >>= f).Reads fun b w => ∃ a u v, F a u ∧ G a b v ∧ w = u ++ v where
  sound := by
    intro r r' b h
    obtain ⟨a, mid, ha, hb⟩ := bind_ok.mp h
    obtain ⟨u, hu, hsplit⟩ := hx.sound ha
    obtain ⟨v, hv, hsplit'⟩ := (hf a).sound hb
    exact ⟨u ++ v, ⟨a, u, v, hu, hv, rfl⟩, hsplit.trans hsplit'⟩
  complete := by
    rintro r b _ rest ⟨a, u, v, hu, hv, rfl⟩ hbytes
    rw [List.append_assoc] at hbytes
    obtain ⟨mid, ha, hsplit⟩ := hx.complete hu hbytes
    have hmid : mid.bytes = v ++ rest := List.append_cancel_left (hsplit.1.symm.trans hbytes)
    obtain ⟨r', hb, hsplit'⟩ := (hf a).complete hv hmid
    exact ⟨r', bind_ok.mpr ⟨a, mid, ha, hb⟩, hsplit.trans hsplit'⟩

theorem Reads.map {x : ChunkReader α} {F : α → List UInt8 → Prop} (hx : x.Reads F) (f : α → β) :
    (f <$> x).Reads fun b w => ∃ a, F a w ∧ f a = b where
  sound := by
    intro r r' b h
    obtain ⟨a, ha, rfl⟩ := map_ok.mp h
    obtain ⟨w, hw, hsplit⟩ := hx.sound ha
    exact ⟨w, ⟨a, hw, rfl⟩, hsplit⟩
  complete := by
    rintro r _ w rest ⟨a, hw, rfl⟩ hbytes
    obtain ⟨r', ha, hsplit⟩ := hx.complete hw hbytes
    exact ⟨r', map_ok.mpr ⟨a, ha, rfl⟩, hsplit⟩

theorem Reads.ite {p : Prop} [Decidable p] {x y : ChunkReader α} {F G : α → List UInt8 → Prop}
    (hx : x.Reads F) (hy : y.Reads G) :
    (if p then x else y).Reads fun a w => (p ∧ F a w) ∨ (¬p ∧ G a w) := by
  by_cases hp : p
  · simpa [hp] using hx
  · simpa [hp] using hy

theorem Reads.optional {x : ChunkReader (List UInt8)} {F : List UInt8 → List UInt8 → Prop}
    (hx : x.Reads F) (present : Bool) : (optional present x).Reads fun a w =>
      (present = true ∧ F a w) ∨ (present = false ∧ a = [] ∧ w = []) := by
  refine (Reads.ite (p := present = true) hx (Reads.pure [])).congr fun a w => ?_
  simp [eq_comm]

end ChunkReader

/-! ### Items -/

section Items

variable {α σ : Type}

/-- The bytes are words of the format `F` for these items, followed by `tail`. -/
inductive Items (F : α → List UInt8 → Prop) : List α → List UInt8 → List UInt8 → Prop
  | nil (b : List UInt8) : Items F [] b b
  | cons {a : α} {as : List α} {w b tail : List UInt8} (hitem : F a w) (hrest : Items F as b tail) :
    Items F (a :: as) (w ++ b) tail

/-- The item in front is known from the bytes, and so is where it ends. -/
def Delimited (F : α → List UInt8 → Prop) : Prop :=
  ∀ {a a' : α} {w w' r r' : List UInt8}, F a w → F a' w' → w ++ r = w' ++ r' → a = a' ∧ w = w'

theorem Items.exists_front {F : α → List UInt8 → Prop} {as : List α} {b tail : List UInt8}
    (h : Items F as b tail) : ∃ front, b = front ++ tail := by
  induction h with
  | nil b => exact ⟨[], rfl⟩
  | @cons a as w b tail _ _ ih =>
    obtain ⟨front, rfl⟩ := ih
    exact ⟨w ++ front, (List.append_assoc w front tail).symm⟩

theorem Items.concat {F : α → List UInt8 → Prop} {as : List α} {a : α} {b w tail : List UInt8}
    (h : Items F as b (w ++ tail)) (hitem : F a w) : Items F (as ++ [a]) b tail := by
  generalize hfront : w ++ tail = front at h
  induction h with
  | nil b =>
    subst hfront
    exact .cons hitem (.nil tail)
  | cons hfirst _ ih => exact .cons hfirst (ih hfront)

theorem Items.tail_unique {F : α → List UInt8 → Prop} (hF : Delimited F) {as : List α}
    {b tail tail' : List UInt8} (h : Items F as b tail) (h' : Items F as b tail') :
    tail = tail' := by
  induction h with
  | nil b =>
    cases h'
    rfl
  | @cons a as w b tail hitem hrest ih =>
    generalize hbytes : w ++ b = b' at h'
    cases h' with
    | @cons _ _ w' r _ hitem' hrest' =>
      obtain ⟨-, rfl⟩ := hF hitem hitem' hbytes
      obtain rfl := List.append_cancel_left hbytes
      exact ih hrest'

/-- Words of one format are words of the other if they are at each place that is reached. -/
theorem Items.imp {F G : α → List UInt8 → Prop} {as : List α} {b tail : List UInt8}
    (h : Items F as b tail) (hFG : ∀ front mid a w r, Items F front b mid → Items G front b mid →
      mid = w ++ r → F a w → G a w) : Items G as b tail := by
  induction h with
  | nil b => exact .nil b
  | @cons a as w b tail hitem hrest ih =>
    have hitem' := hFG [] _ a w b (.nil _) (.nil _) rfl hitem
    refine .cons hitem' (ih ?_)
    intro front mid a' w' r hF hG hmid hnext
    exact hFG (a :: front) mid a' w' r (.cons hitem hF) (.cons hitem' hG) hmid hnext

/-- What is in front of an item in the bytes is known. -/
theorem Items.cases_front {F : α → List UInt8 → Prop} (hF : Delimited F) {a : α} {as : List α}
    {w b tail : List UInt8} (h : Items F as (w ++ b) tail) (hitem : F a w) :
    (as = [] ∧ tail = w ++ b) ∨ ∃ as', as = a :: as' ∧ Items F as' b tail := by
  generalize hbytes : w ++ b = b' at h
  cases h with
  | nil => exact .inl ⟨rfl, rfl⟩
  | @cons a' as' w' b'' _ hitem' hrest =>
    obtain ⟨rfl, rfl⟩ := hF hitem hitem' hbytes
    obtain rfl := List.append_cancel_left hbytes
    exact .inr ⟨as', rfl, hrest⟩

/-- Items that end where there is no item in front are known from the bytes. -/
theorem Items.unique {F : α → List UInt8 → Prop} (Stop : List UInt8 → Prop) (hF : Delimited F)
    (hstop : ∀ {a w r}, F a w → ¬Stop (w ++ r)) {as as' : List α} {b tail tail' : List UInt8}
    (h : Items F as b tail) (hend : Stop tail) (h' : Items F as' b tail') (hend' : Stop tail') :
    as = as' := by
  induction h generalizing as' with
  | nil b =>
    cases h' with
    | nil => rfl
    | cons hitem => exact absurd hend (hstop hitem)
  | cons hitem _ ih =>
    rcases h'.cases_front hF hitem with ⟨-, rfl⟩ | ⟨as'', rfl, hrest'⟩
    · exact absurd hend' (hstop hitem)
    · rw [ih hend hrest']

/-- More bytes behind the items leave them where they are. -/
theorem Items.append {F : α → List UInt8 → Prop} {as : List α} {b tail : List UInt8}
    (h : Items F as b tail) (c : List UInt8) : Items F as (b ++ c) (tail ++ c) := by
  induction h with
  | nil b => exact .nil (b ++ c)
  | @cons a as w b tail hitem _ ih =>
    rw [List.append_assoc]
    exact .cons hitem ih

/-- Items that end where there is no item in front are all that there are. -/
theorem Items.isPrefix {F : α → List UInt8 → Prop} (hF : Delimited F) {as as' : List α}
    {b tail tail' : List UInt8} (h : Items F as b tail) (h' : Items F as' b tail')
    (hend : ∀ a w r, F a w → tail' ≠ w ++ r) : as <+: as' := by
  induction h' generalizing as with
  | nil b =>
    cases h with
    | nil => exact List.prefix_rfl
    | cons hitem => exact absurd rfl (hend _ _ _ hitem)
  | cons hitem _ ih =>
    rcases h.cases_front hF hitem with ⟨rfl, -⟩ | ⟨as'', rfl, hrest⟩
    · exact List.nil_prefix
    · exact (List.prefix_cons_inj _).mpr (ih hrest hend)

/-- Items are read until there are none. -/
inductive Collects (next : σ → Option α → σ → Prop) : σ → List α → Prop
  | done {s t : σ} (hnone : next s none t) : Collects next s []
  | more {s t : σ} {a : α} {as : List α} (hsome : next s (some a) t) (hrest : Collects next t as) :
    Collects next s (a :: as)

/-- A loop that reads items of a format collects those that are in front of what it takes for the
end. -/
theorem collects_iff {next : σ → Option α → σ → Prop} (bytes : σ → List UInt8)
    (ending : σ → Ending) (F : α → List UInt8 → Prop) (AtEnd : List UInt8 → Ending → Prop)
    (sound : ∀ {s t a}, next s (some a) t →
      ∃ w, F a w ∧ bytes s = w ++ bytes t ∧ ending s = ending t)
    (complete : ∀ {s a w rest}, F a w → bytes s = w ++ rest →
      ∃ t, next s (some a) t ∧ bytes t = rest ∧ ending s = ending t)
    (none_iff : ∀ {s}, (∃ t, next s none t) ↔ AtEnd (bytes s) (ending s)) {s : σ} {as : List α} :
    Collects next s as ↔ ∃ tail, Items F as (bytes s) tail ∧ AtEnd tail (ending s) := by
  constructor
  · intro h
    induction h with
    | done hnone => exact ⟨_, .nil _, none_iff.mp ⟨_, hnone⟩⟩
    | more hsome _ ih =>
      obtain ⟨w, hw, hbytes, hending⟩ := sound hsome
      obtain ⟨tail, hitems, hend⟩ := ih
      rw [hbytes, hending]
      exact ⟨tail, .cons hw hitems, hend⟩
  · rintro ⟨tail, hitems, hend⟩
    generalize hb : bytes s = b at hitems
    induction hitems generalizing s with
    | nil b =>
      obtain ⟨t, hnone⟩ := none_iff.mpr (by rw [hb]; exact hend)
      exact .done hnone
    | cons hitem _ ih =>
      obtain ⟨t, hsome, hbytes, hending⟩ := complete hitem hb
      exact .more hsome (ih (by rw [← hending]; exact hend) hbytes)

end Items

end Library
