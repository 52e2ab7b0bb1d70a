import Moqt.Library.Refine
import Moqt.Web.StreamReader

/-! The object `StreamReader` over any sequence of calls, with what it keeps behind a call that has
failed.  It stands for the bytes that are left of the stream, and what it returns is told from
them: it makes no difference where the chunks are cut. -/

namespace Moqt.Web

open Library

/-- The fields of `StreamReader`: the buffer and the flag `done`, and as its `reader` the chunks that
it has not given out, and the way in which the stream ends behind them. -/
structure StreamReader extends Chunked where
  done : Bool := false
deriving DecidableEq, Repr

/-- The two methods that the others are written with. -/
structure ByteSource (σ : Type) where
  readExact : Nat → EStateM String σ Bytes
  tryReadExact : Nat → EStateM String σ (Option Bytes)

namespace StreamReader

variable {α : Type}

/-- What `readExact` does behind the end of the stream, with too few bytes in the buffer. -/
def exactAtEnd (_ : Bytes) : Except String Bytes := .error "stream ended before enough bytes"

/-- What `tryReadExact` does there. -/
def tryAtEnd (buffer : Bytes) : Except String (Option Bytes) :=
  if buffer.length = 0 then .ok none else .error "stream ended with partial data"

def finish (r : StreamReader) : Except String α → EStateM.Result String StreamReader α
  | .ok a => .ok a r
  | .error message => .error message r

/-- The loop of `readExact` and of `tryReadExact`, and the two lines behind it.  The loop is entered
with too few bytes in the buffer only, so that the tests for `n` behind a `read` that is `done` make
no difference. -/
def awaitFrom (n : Nat) (atEnd : Bytes → Except String α) (enough : Bytes → α) (ending : Ending)
    (done : Bool) (chunks : List Bytes) (buffer : Bytes) : EStateM.Result String StreamReader α :=
  if buffer.length < n then
    if done then finish { buffer, chunks, ending, done } (atEnd buffer)
    else
      match chunks with
      | value :: chunks => awaitFrom n atEnd enough ending done chunks (buffer ++ value)
      | [] =>
        match ending with
        | .finished => finish { buffer, chunks := [], ending, done := true } (atEnd buffer)
        | .reset => .error readError { buffer, chunks := [], ending, done }
  else .ok (enough (buffer.take n)) { buffer := buffer.drop n, chunks, ending, done }

def await (n : Nat) (atEnd : Bytes → Except String α) (enough : Bytes → α) :
    EStateM String StreamReader α :=
  fun r => awaitFrom n atEnd enough r.ending r.done r.chunks r.buffer

/-- The methods of the object. -/
def source : ByteSource StreamReader where
  readExact n := await n exactAtEnd id
  tryReadExact n := await n tryAtEnd some

/-- The object on a stream whose bytes come in these chunks, before the first call. -/
def opened (chunks : List Bytes) : StreamReader := { chunks, ending := .finished }

end StreamReader

namespace ByteSource

variable {σ α : Type} (source : ByteSource σ)

def ofOutcome : Outcome α → EStateM String σ α
  | .ok a => pure a
  | .err message => throw message
  | .panic message => throw message

/-- What `readVarint` and `tryReadVarint` do when they have the first byte. -/
def readVarintFrom (first : Bytes) : EStateM String σ (Nat × Bytes) := do
  let len ← ofOutcome (varintByteLength (first.headD 0))
  if len = 1 then
    let (value, _) ← ofOutcome (decodeVarint first 0)
    return (value, first)
  else
    let rest ← source.readExact (len - 1)
    let raw := first ++ rest
    let (value, _) ← ofOutcome (decodeVarint raw 0)
    return (value, raw)

def readVarint : EStateM String σ (Nat × Bytes) := do
  let first ← source.readExact 1
  source.readVarintFrom first

def tryReadVarint : EStateM String σ (Option (Nat × Bytes)) := do
  match ← source.tryReadExact 1 with
  | none => return none
  | some first => some <$> source.readVarintFrom first

def readMessageFrame : EStateM String σ Bytes := do
  let (_, typeBytes) ← source.readVarint
  let lenBytes ← source.readExact 2
  let payloadLen := byteAt lenBytes 0 <<< 8 ||| byteAt lenBytes 1
  let payload ← source.readExact payloadLen
  return typeBytes ++ lenBytes ++ payload

end ByteSource

/-! ### Calls -/

inductive ReadCall where
  | readExact (n : Nat)
  | tryReadExact (n : Nat)
  | readVarint
  | tryReadVarint
  | readMessageFrame
deriving DecidableEq, Repr

/-- What a call returns. -/
inductive ReadValue where
  | bytes (data : Bytes)
  | varint (value : Nat) (raw : Bytes)
  | null
deriving DecidableEq, Repr

namespace ReadValue

/-- The bytes of a value. -/
def taken : ReadValue → Bytes
  | .bytes data => data
  | .varint _ raw => raw
  | .null => []

def ofVarint (p : Nat × Bytes) : ReadValue := .varint p.1 p.2

end ReadValue

def ReadCall.exec {σ : Type} (source : ByteSource σ) : ReadCall → EStateM String σ ReadValue
  | .readExact n => .bytes <$> source.readExact n
  | .tryReadExact n => (·.elim .null .bytes) <$> source.tryReadExact n
  | .readVarint => .ofVarint <$> source.readVarint
  | .tryReadVarint => (·.elim .null .ofVarint) <$> source.tryReadVarint
  | .readMessageFrame => .bytes <$> source.readMessageFrame

/-! ### What an object stands for -/

namespace ByteSource

variable {α : Type}

/-- The first `n` of the bytes that are left are taken if there are as many, and nothing
otherwise. -/
def takeBytes (ending : Ending) (n : Nat) (atEnd : Bytes → Except String α) (enough : Bytes → α) :
    EStateM String Bytes α := fun bytes =>
  if n ≤ bytes.length then .ok (enough (bytes.take n)) (bytes.drop n)
  else
    match ending with
    | .finished =>
      match atEnd bytes with
      | .ok a => .ok a bytes
      | .error message => .error message bytes
    | .reset => .error StreamReader.readError bytes

/-- A stream of which nothing is known but the bytes that are left and the way in which it ends. -/
def ofBytes (ending : Ending) : ByteSource Bytes where
  readExact n := takeBytes ending n StreamReader.exactAtEnd id
  tryReadExact n := takeBytes ending n StreamReader.tryAtEnd some

end ByteSource

namespace StreamReader

variable {α β : Type}

/-- The flag `done` is set behind the end of the stream only. -/
def DoneAtEnd (r : StreamReader) : Prop :=
  r.done = true → r.chunks = [] ∧ r.ending = .finished

/-- The bytes in the buffer and in the chunks are those that are left. -/
structure StandsFor (ending : Ending) (r : StreamReader) (bytes : Bytes) : Prop where
  doneAtEnd : r.DoneAtEnd
  bytes : r.bytes = bytes
  ending : r.ending = ending

/-- What is done with the buffer when no more chunks are awaited. -/
def settle (n : Nat) (atEnd : Bytes → Except String α) (enough : Bytes → α) (done : Bool)
    (c : Chunked) : EStateM.Result String StreamReader α :=
  if n ≤ c.buffer.length then
    .ok (enough (c.buffer.take n)) { c with buffer := c.buffer.drop n, done }
  else
    match c.ending with
    | .finished => finish { c with done := true } (atEnd c.buffer)
    | .reset => .error readError { c with done }

/-- The loop fills the buffer from the chunks, and comes to the end of the stream if they are too
few. -/
theorem awaitFrom_eq (n : Nat) (atEnd : Bytes → Except String α) (enough : Bytes → α)
    {ending : Ending} {done : Bool} {chunks : List Bytes} (buffer : Bytes)
    (h : done = true → chunks = [] ∧ ending = .finished) :
    awaitFrom n atEnd enough ending done chunks buffer =
      settle n atEnd enough done (Chunked.fillFrom n ending chunks buffer) := by
  induction chunks generalizing buffer with
  | nil =>
    rw [awaitFrom.eq_def, Chunked.fillFrom, settle]
    by_cases hshort : buffer.length < n
    · rw [if_pos hshort, if_neg (Nat.not_le_of_lt hshort)]
      cases done with
      | false => rfl
      | true =>
        obtain ⟨-, rfl⟩ := h rfl
        rfl
    · rw [if_neg hshort, if_pos (Nat.le_of_not_lt hshort)]
  | cons chunk chunks ih =>
    obtain rfl : done = false := by
      cases done with
      | false => rfl
      | true => cases (h rfl).1
    rw [awaitFrom.eq_def, Chunked.fillFrom]
    by_cases hshort : buffer.length < n
    · rw [if_pos hshort, if_pos hshort]
      exact ih (buffer ++ chunk) fun hdone => absurd hdone Bool.false_ne_true
    · rw [if_neg hshort, if_neg hshort, settle]
      exact (if_pos (Nat.le_of_not_lt hshort)).symm

theorem await_eq {r : StreamReader} (h : r.DoneAtEnd) (n : Nat)
    (atEnd : Bytes → Except String α) (enough : Bytes → α) :
    await n atEnd enough r = settle n atEnd enough r.done (r.fill n) :=
  awaitFrom_eq n atEnd enough r.buffer h

/-- A call that finds too few bytes has all of them in its buffer. -/
theorem fill_short {n : Nat} {c : Chunked} (h : ¬n ≤ (c.fill n).buffer.length) :
    (c.fill n).chunks = [] ∧ (c.fill n).buffer = c.bytes := by
  have hchunks := (Chunked.fillFrom_filled n c.ending c.chunks c.buffer).resolve_left h
  refine ⟨hchunks, ?_⟩
  rw [(Chunked.fill_splits n c).1, Chunked.bytes, show (c.fill n).chunks = [] from hchunks]
  simp

/-- The flag stays right when chunks are awaited. -/
theorem doneAtEnd_fill {r : StreamReader} (h : r.DoneAtEnd) (n : Nat) (buffer : Bytes) :
    DoneAtEnd { r.fill n with buffer, done := r.done } := by
  intro hdone
  obtain ⟨hchunks, hending⟩ := h hdone
  have hfill : r.fill n = { buffer := r.buffer, chunks := [], ending := r.ending } := by
    rw [Chunked.fill, hchunks]
    rfl
  rw [hfill]
  exact ⟨rfl, hending⟩

/-- A call takes the bytes that it asks for off those that are left, or fails and takes nothing. -/
theorem await_refines (ending : Ending) (n : Nat) (atEnd : Bytes → Except String α)
    (enough : Bytes → α) : Refines (StandsFor ending) (StandsFor ending) (await n atEnd enough)
      (ByteSource.takeBytes ending n atEnd enough) := by
  rintro r _ ⟨hdone, rfl, rfl⟩
  obtain ⟨hsplit, hsame⟩ := Chunked.fill_splits n r.toChunked
  rw [List.nil_append] at hsplit
  rw [await_eq hdone, settle]
  unfold ByteSource.takeBytes
  by_cases henough : n ≤ (r.fill n).buffer.length
  · have htake : (r.fill n).buffer.take n = r.bytes.take n := by
      rw [hsplit, Chunked.bytes, List.take_append_of_le_length henough]
    rw [if_pos henough, if_pos (Chunked.fill_length_iff.mp henough), htake]
    refine .ok ⟨doneAtEnd_fill hdone n _, ?_, hsame.symm⟩
    rw [hsplit, Chunked.bytes, Chunked.bytes, List.drop_append_of_le_length henough]
  · obtain ⟨hchunks, hbuffer⟩ := fill_short henough
    rw [if_neg henough, if_neg (mt Chunked.fill_length_iff.mpr henough), ← hsame, hbuffer]
    cases hending : r.ending with
    | finished =>
      have hstands : StandsFor .finished { r.fill n with done := true } r.bytes :=
        ⟨fun _ => ⟨hchunks, hsame.symm.trans hending⟩, hsplit.symm, hsame.symm.trans hending⟩
      show SameResult _ _ (finish _ _) _
      cases atEnd r.bytes with
      | ok a => exact .ok hstands
      | error message => exact .error hstands
    | reset =>
      exact .error ⟨doneAtEnd_fill hdone n _, hsplit.symm, hsame.symm.trans hending⟩

end StreamReader

namespace ByteSource

variable {σ τ α : Type} {R E : σ → τ → Prop} {p : ByteSource σ} {q : ByteSource τ}

/-- The two methods of `p` are those of `q`. -/
structure Follows (R E : σ → τ → Prop) (p : ByteSource σ) (q : ByteSource τ) : Prop where
  related : ∀ s t, R s t → E s t
  readExact : ∀ n, Refines R E (p.readExact n) (q.readExact n)
  tryReadExact : ∀ n, Refines R E (p.tryReadExact n) (q.tryReadExact n)

theorem refines_ofOutcome (hE : ∀ s t, R s t → E s t) (o : Outcome α) :
    Refines R E (ofOutcome o : EStateM String σ α) (ofOutcome o) := by
  cases o with
  | ok a => exact .pure a
  | err message | panic message => exact .throw hE message

theorem Follows.readVarintFrom (h : p.Follows R E q) (first : Bytes) :
    Refines R E (p.readVarintFrom first) (q.readVarintFrom first) :=
  (refines_ofOutcome h.related _).bind fun _ => .ite
    ((refines_ofOutcome h.related _).bind fun _ => .pure _)
    ((h.readExact _).bind fun _ => (refines_ofOutcome h.related _).bind fun _ => .pure _)

theorem Follows.readVarint (h : p.Follows R E q) : Refines R E p.readVarint q.readVarint :=
  (h.readExact 1).bind fun first => h.readVarintFrom first

theorem Follows.tryReadVarint (h : p.Follows R E q) :
    Refines R E p.tryReadVarint q.tryReadVarint := by
  refine (h.tryReadExact 1).bind fun first => ?_
  cases first with
  | none => exact .pure none
  | some first => exact (h.readVarintFrom first).map some

theorem Follows.readMessageFrame (h : p.Follows R E q) :
    Refines R E p.readMessageFrame q.readMessageFrame :=
  h.readVarint.bind fun _ => (h.readExact 2).bind fun _ => (h.readExact _).bind fun _ => .pure _

theorem Follows.exec (h : p.Follows R E q) (call : ReadCall) :
    Refines R E (call.exec p) (call.exec q) := by
  cases call with
  | readExact n => exact (h.readExact n).map _
  | tryReadExact n => exact (h.tryReadExact n).map _
  | readVarint => exact h.readVarint.map _
  | tryReadVarint => exact h.tryReadVarint.map _
  | readMessageFrame => exact h.readMessageFrame.map _

end ByteSource

theorem StreamReader.source_follows (ending : Ending) :
    StreamReader.source.Follows (StandsFor ending) (StandsFor ending) (.ofBytes ending) where
  related := fun _ _ h => h
  readExact := fun n => await_refines ending n exactAtEnd id
  tryReadExact := fun n => await_refines ending n tryAtEnd some

/-! ### Callers that stop at a failure -/

namespace StreamReader

variable {α β : Type}

/-- A reader as a method, which leaves no more of the stream known when it fails. -/
def toMethod (y : ChunkReader α) : EStateM String Chunked α := fun c =>
  match y c with
  | .ok (a, c') => .ok a c'
  | .err message => .error message c
  | .panic message => .error message c

/-- To a caller that stops at a failure, the method `x` is the reader `y`. -/
def IsReader (x : EStateM String StreamReader α) (y : ChunkReader α) : Prop :=
  Refines (fun r c => r.DoneAtEnd ∧ r.toChunked = c) (fun _ _ => True) x (toMethod y)

theorem IsReader.pure (a : α) : IsReader (Pure.pure a) (Pure.pure a) :=
  fun _ _ h => .ok h

theorem IsReader.ofOutcome (o : Outcome α) :
    IsReader (ByteSource.ofOutcome o) (ChunkReader.ofOutcome o) := by
  intro r c h
  cases o with
  | ok a => exact .ok h
  | err message | panic message => exact .error trivial

theorem IsReader.bind {x : EStateM String StreamReader α} {y : ChunkReader α}
    {f : α → EStateM String StreamReader β} {g : α → ChunkReader β} (hx : IsReader x y)
    (hf : ∀ a, IsReader (f a) (g a)) : IsReader (x >>= f) (y >>= g) := by
  intro r c h
  have hfirst := hx r c h
  show SameResult _ _ (EStateM.bind x f r) (toMethod (ChunkReader.bind y g) c)
  simp only [toMethod, EStateM.bind, ChunkReader.bind] at hfirst ⊢
  generalize x r = p at hfirst
  generalize y c = q at hfirst
  cases q with
  | ok q =>
    obtain ⟨a, mid⟩ := q
    cases hfirst with
    | ok hmid =>
      have hrest := hf a _ mid hmid
      simp only [toMethod, Outcome.bind] at hrest ⊢
      cases hlast : g a mid with
      | ok q' => rwa [hlast] at hrest
      | err message | panic message =>
        -- where the second part fails, the state is not looked at
        rw [hlast] at hrest
        generalize f a _ = p' at hrest ⊢
        cases hrest
        exact .error trivial
  | err message | panic message =>
    cases hfirst
    exact .error trivial

theorem IsReader.map {x : EStateM String StreamReader α} {y : ChunkReader α} (hx : IsReader x y)
    (f : α → β) : IsReader (f <$> x) (f <$> y) := by
  rw [map_eq_pure_bind]
  exact hx.bind fun a => .pure (f a)

theorem IsReader.ite {p : Prop} [Decidable p] {x x' : EStateM String StreamReader α}
    {y y' : ChunkReader α} (hx : IsReader x y) (hx' : IsReader x' y') :
    IsReader (if p then x else x') (if p then y else y') := by
  split
  · exact hx
  · exact hx'

theorem isReader_readExact (n : Nat) : IsReader (source.readExact n) (readExact n) := by
  rintro r c ⟨hdone, rfl⟩
  show SameResult _ _ (await n exactAtEnd id r) (toMethod (readExact n) r.toChunked)
  rw [await_eq hdone, settle, toMethod, readExact]
  by_cases henough : n ≤ (r.fill n).buffer.length
  · simp only [if_pos henough]
    exact .ok ⟨doneAtEnd_fill hdone n _, rfl⟩
  · simp only [if_neg henough]
    cases (r.fill n).ending with
    | finished | reset => exact .error trivial

theorem isReader_tryReadExact (n : Nat) : IsReader (source.tryReadExact n) (tryReadExact n) := by
  rintro r c ⟨hdone, rfl⟩
  show SameResult _ _ (await n tryAtEnd some r) (toMethod (tryReadExact n) r.toChunked)
  rw [await_eq hdone, settle, toMethod, tryReadExact]
  by_cases henough : n ≤ (r.fill n).buffer.length
  · simp only [if_pos henough]
    exact .ok ⟨doneAtEnd_fill hdone n _, rfl⟩
  · obtain ⟨hchunks, -⟩ := fill_short henough
    simp only [if_neg henough]
    cases hending : (r.fill n).ending with
    | finished =>
      show SameResult _ _ (finish _ (tryAtEnd (r.fill n).buffer)) _
      unfold tryAtEnd
      by_cases hempty : (r.fill n).buffer.length = 0
      · simp only [if_pos hempty]
        exact .ok ⟨fun _ => ⟨hchunks, hending⟩, rfl⟩
      · simp only [if_neg hempty]
        exact .error trivial
    | reset => exact .error trivial

theorem isReader_readVarintFrom (first : Bytes) :
    IsReader (source.readVarintFrom first) (readVarintFrom first) :=
  (IsReader.ofOutcome _).bind fun _ => .ite ((IsReader.ofOutcome _).bind fun _ => .pure _)
    ((isReader_readExact _).bind fun _ => (IsReader.ofOutcome _).bind fun _ => .pure _)

theorem isReader_readVarint : IsReader source.readVarint readVarint :=
  (isReader_readExact 1).bind isReader_readVarintFrom

theorem isReader_tryReadVarint : IsReader source.tryReadVarint tryReadVarint := by
  refine (isReader_tryReadExact 1).bind fun first => ?_
  cases first with
  | none => exact .pure none
  | some first => exact (isReader_readVarintFrom first).map some

theorem isReader_readMessageFrame : IsReader source.readMessageFrame readMessageFrame :=
  isReader_readVarint.bind fun _ => (isReader_readExact 2).bind fun _ =>
    (isReader_readExact _).bind fun _ => .pure _

theorem IsReader.returns {x : EStateM String StreamReader α} {y : ChunkReader α}
    (h : IsReader x y) {r r' : StreamReader} {a : α} (hdone : r.DoneAtEnd) (hx : x r = .ok a r') :
    r'.DoneAtEnd ∧ y r.toChunked = .ok (a, r'.toChunked) := by
  have hsame := h r r.toChunked ⟨hdone, rfl⟩
  rw [hx, toMethod] at hsame
  cases hy : y r.toChunked with
  | ok p =>
    simp only [hy] at hsame
    cases hsame with
    | ok hmid => exact ⟨hmid.1, by rw [hmid.2]⟩
  | err message | panic message =>
    simp only [hy] at hsame
    cases hsame

theorem IsReader.exists_returns {x : EStateM String StreamReader α} {y : ChunkReader α}
    (h : IsReader x y) {r : StreamReader} {c : Chunked} {a : α} (hdone : r.DoneAtEnd)
    (hy : y r.toChunked = .ok (a, c)) : ∃ r', x r = .ok a r' := by
  have hsame := h r r.toChunked ⟨hdone, rfl⟩
  simp only [toMethod, hy] at hsame
  generalize hx : x r = p at hsame
  cases hsame with
  | ok hmid => exact ⟨_, rfl⟩

/-- The bytes that a call returns are those that it takes. -/
theorem exec_taken {call : ReadCall} {r r' : StreamReader} {value : ReadValue}
    (hdone : r.DoneAtEnd) (hexec : call.exec source r = .ok value r') :
    r'.DoneAtEnd ∧ r.bytes = value.taken ++ r'.bytes := by
  cases call with
  | readExact n =>
    obtain ⟨bytes, h, rfl⟩ := map_eq_ok.mp hexec
    obtain ⟨hdone', h⟩ := (isReader_readExact n).returns hdone h
    obtain ⟨_, ⟨rfl, -⟩, hsplit⟩ := (readExact_reads n).sound h
    exact ⟨hdone', hsplit.1⟩
  | tryReadExact n =>
    obtain ⟨_ | bytes, h, rfl⟩ := map_eq_ok.mp hexec
    · obtain ⟨hdone', h⟩ := (isReader_tryReadExact n).returns hdone h
      exact ⟨hdone', (tryReadExact_none_splits h).1⟩
    · obtain ⟨hdone', h⟩ := (isReader_tryReadExact n).returns hdone h
      obtain ⟨_, ⟨rfl, -⟩, hsplit⟩ := (readExact_reads n).sound (tryReadExact_some.mp h)
      exact ⟨hdone', hsplit.1⟩
  | readVarint =>
    obtain ⟨p, h, rfl⟩ := map_eq_ok.mp hexec
    obtain ⟨hdone', h⟩ := isReader_readVarint.returns hdone h
    obtain ⟨w, ⟨-, rfl⟩, hsplit⟩ := readVarint_reads.sound h
    exact ⟨hdone', hsplit.1⟩
  | tryReadVarint =>
    obtain ⟨_ | p, h, rfl⟩ := map_eq_ok.mp hexec
    · obtain ⟨hdone', h⟩ := isReader_tryReadVarint.returns hdone h
      exact ⟨hdone', (tryReadVarint_none_splits h).1⟩
    · obtain ⟨hdone', h⟩ := isReader_tryReadVarint.returns hdone h
      obtain ⟨w, ⟨-, rfl⟩, hsplit⟩ := readVarint_reads.sound (tryReadVarint_some.mp h)
      exact ⟨hdone', hsplit.1⟩
  | readMessageFrame =>
    obtain ⟨frame, h, rfl⟩ := map_eq_ok.mp hexec
    obtain ⟨hdone', h⟩ := isReader_readMessageFrame.returns hdone h
    obtain ⟨_, ⟨rfl, -⟩, hsplit⟩ := readMessageFrame_reads.sound h
    exact ⟨hdone', hsplit.1⟩

theorem exec_tryReadVarint_null {r : StreamReader} (hdone : r.DoneAtEnd)
    (hending : r.ending = .finished) :
    (∃ r', ReadCall.tryReadVarint.exec source r = .ok .null r') ↔ r.bytes = [] := by
  have hnone : (∃ r', source.tryReadVarint r = .ok none r') ↔ r.bytes = [] := by
    constructor
    · rintro ⟨r', h⟩
      exact (tryReadVarint_none.mp ⟨_, (isReader_tryReadVarint.returns hdone h).2⟩).1
    · intro hnil
      obtain ⟨c, hc⟩ := tryReadVarint_none.mpr ⟨hnil, hending⟩
      exact isReader_tryReadVarint.exists_returns hdone hc
  rw [← hnone]
  refine exists_congr fun r' => map_eq_ok.trans ?_
  constructor
  · rintro ⟨_ | p, h, hvalue⟩
    · exact h
    · cases hvalue
  · intro h
    exact ⟨none, h, rfl⟩

/-! ### Any calls, however the bytes are cut -/

/-- The results of calls one after the other, and the object behind them. -/
def run (calls : List ReadCall) (r : StreamReader) :
    List (Except String ReadValue) × StreamReader :=
  runCalls (ReadCall.exec source) calls r

theorem run_standsFor (calls : List ReadCall) {chunks : List Bytes} {bytes : Bytes}
    (h : chunks.flatten = bytes) :
    (run calls (opened chunks)).1 =
        (runCalls (ReadCall.exec (.ofBytes .finished)) calls bytes).1 ∧
      StandsFor .finished (run calls (opened chunks)).2
        (runCalls (ReadCall.exec (.ofBytes .finished)) calls bytes).2 :=
  runCalls_refines (source_follows .finished).exec calls ⟨nofun, h, rfl⟩

/-- Two ways to cut the same bytes give the same results, call by call; as long as no call fails, no
byte is lost or repeated; and there is nothing for `tryReadVarint` exactly if no byte is left. -/
structure ChunkingIndependent (bytes : Bytes) : Prop where
  sameResults : ∀ chunks chunks', chunks.flatten = bytes → chunks'.flatten = bytes → ∀ calls,
    (run calls (opened chunks)).1 = (run calls (opened chunks')).1
  content : ∀ chunks, chunks.flatten = bytes → ∀ calls (values : List ReadValue),
    (run calls (opened chunks)).1 = values.map .ok →
      (values.map ReadValue.taken).flatten ++ (run calls (opened chunks)).2.bytes = bytes
  null_iff : ∀ chunks, chunks.flatten = bytes → ∀ calls,
    (∃ r', ReadCall.tryReadVarint.exec source (run calls (opened chunks)).2 = .ok .null r') ↔
      (run calls (opened chunks)).2.bytes = []

theorem chunkingIndependent (bytes : Bytes) : ChunkingIndependent bytes where
  sameResults := by
    intro chunks chunks' h h' calls
    rw [(run_standsFor calls h).1, (run_standsFor calls h').1]
  content := by
    rintro chunks rfl calls values hvalues
    exact runCalls_content (P := DoneAtEnd) (fun r => r.bytes) ReadValue.taken
      (fun _ _ _ _ => exec_taken) (fun hdone => nomatch hdone) hvalues
  null_iff := by
    intro chunks h calls
    have hstands := (run_standsFor calls h).2
    exact exec_tryReadVarint_null hstands.doneAtEnd hstands.ending

/-- A call that fails leaves the bytes that have arrived. -/
example : (run [.readExact 3, .tryReadExact 1] (opened [[1], [], [2]])).1 =
    [.error "stream ended before enough bytes", .ok (.bytes [1])] := rfl

end StreamReader

end Moqt.Web
