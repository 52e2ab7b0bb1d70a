import Moqt.Library.Chunked

/-! Readers on streams of which only a front has arrived.  A reader that awaits a word takes it
where it is there as a whole, and where the stream is cut within it fails for want of bytes, and for
no other reason.  Readers that await one word after the other await both.  A reader of chunks awaits
every word that it reads: nothing else that it reads is in front of it. -/

namespace Library

/-- A front of `w ++ more` is cut within `w`, or has `w` in front. -/
theorem front_cases {b w more : List UInt8} (h : b <+: w ++ more) :
    (b <+: w ∧ b.length < w.length) ∨ ∃ rest, b = w ++ rest ∧ rest <+: more := by
  have hw := List.prefix_append w more
  rcases Nat.lt_or_ge b.length w.length with hshort | hlong
  · exact .inl ⟨List.prefix_of_prefix_length_le h hw (Nat.le_of_lt hshort), hshort⟩
  · right
    obtain ⟨rest, rfl⟩ := List.prefix_of_prefix_length_le hw h hlong
    exact ⟨rest, rfl, (List.prefix_append_right_inj w).mp h⟩

theorem ByteStream.front_cases {s : ByteStream} {w more : List UInt8} (h : s.bytes <+: w ++ more) :
    (s.bytes <+: w ∧ s.bytes.length < w.length) ∨ ∃ t, s.Splits w t ∧ t.bytes <+: more := by
  rcases Library.front_cases h with hfront | ⟨rest, hrest, hmore⟩
  · exact .inl hfront
  · obtain ⟨t, hsplits, rfl⟩ := ByteStream.exists_splits hrest
    exact .inr ⟨t, hsplits, hmore⟩

namespace Reader

variable {α β : Type}

/-- The reader takes the word `w` for `a`, and fails for want of bytes on a front of it. -/
structure Awaits (x : Reader α) (w : List UInt8) (a : α) : Prop where
  takes : ∀ s t, s.Splits w t → x.Returns s a t
  starves : ∀ s : ByteStream, s.bytes <+: w → s.bytes.length < w.length →
    ∃ e, x.Fails s (.readExact e)

namespace Awaits

variable {x : Reader α} {f : α → Reader β} {v w : List UInt8} {a : α} {b : β}

theorem pure (a : α) : (Pure.pure a : Reader α).Awaits [] a where
  takes _ _ h := returns_pure.mpr ⟨rfl, ByteStream.eq_iff.mpr h⟩
  starves _ _ h := absurd h (Nat.not_lt_zero _)

theorem readExact (w : List UInt8) : (readExact w.length).Awaits w w where
  takes _ _ h := returns_readExact.mpr ⟨rfl, h⟩
  starves _ _ h := ⟨_, fails_readExact.mpr ⟨h, rfl⟩⟩

theorem readBuffer (w : List UInt8) : (readBuffer w.length).Awaits w w where
  takes _ _ h := returns_readBuffer.mpr ⟨rfl, h⟩
  starves _ _ h := ⟨_, fails_readBuffer.mpr ⟨h, rfl⟩⟩

/-- One word after the other. -/
theorem bind (hx : x.Awaits v a) (hf : (f a).Awaits w b) : (x >>= f).Awaits (v ++ w) b where
  takes s u h := by
    obtain ⟨t, hfirst, hrest⟩ := ByteStream.splits_append.mp h
    exact returns_bind.mpr ⟨a, t, hx.takes s t hfirst, hf.takes t u hrest⟩
  starves s hs hlt := by
    rcases ByteStream.front_cases hs with ⟨hfront, hshort⟩ | ⟨t, hsplits, hrest⟩
    · obtain ⟨e, he⟩ := hx.starves s hfront hshort
      exact ⟨e, fails_bind.mpr (.inl he)⟩
    · rw [hsplits.1, List.length_append, List.length_append] at hlt
      obtain ⟨e, he⟩ := hf.starves t hrest (Nat.lt_of_add_lt_add_left hlt)
      exact ⟨e, fails_bind.mpr (.inr ⟨a, t, hx.takes s t hsplits, he⟩)⟩

/-- What is done behind a word without reading on. -/
theorem bind_silent (hx : x.Awaits w a) (hf : (f a).Awaits [] b) : (x >>= f).Awaits w b := by
  have h := hx.bind hf
  rwa [List.append_nil] at h

theorem decode {d : Decoder α} {bytes rest : List UInt8} (h : d.Returns bytes a rest) :
    (decode d bytes).Awaits [] a where
  takes _ _ hs := returns_decode.mpr ⟨⟨rest, h⟩, ByteStream.eq_iff.mpr hs⟩
  starves _ _ hlt := absurd hlt (Nat.not_lt_zero _)

/-- On a stream with a front of the word and more behind it, the word is taken or it is not there as
a whole. -/
theorem of_front (h : x.Awaits w a) {s : ByteStream} {more : List UInt8}
    (hs : s.bytes <+: w ++ more) : (∃ t, x.Returns s a t ∧ t.bytes <+: more) ∨
      s.bytes.length < w.length ∧ ∃ e, x.Fails s (.readExact e) := by
  rcases ByteStream.front_cases hs with ⟨hfront, hshort⟩ | ⟨t, hsplits, hrest⟩
  · exact .inr ⟨hshort, h.starves s hfront hshort⟩
  · exact .inl ⟨t, h.takes s t hsplits, hrest⟩

end Awaits

end Reader

namespace ChunkReader

variable {α : Type}

/-- The reader takes the word `w` for `a`, and takes nothing from a front of it. -/
structure Awaits (x : ChunkReader α) (w : List UInt8) (a : α) : Prop where
  takes : ∀ (r : Chunked) (more : List UInt8), r.bytes = w ++ more →
    ∃ r', x r = .ok (a, r') ∧ r'.bytes = more
  starves : ∀ r : Chunked, r.bytes <+: w → r.bytes.length < w.length →
    ∀ a' r', x r ≠ .ok (a', r')

theorem Reads.awaits {x : ChunkReader α} {F : α → List UInt8 → Prop} (hx : x.Reads F) {a : α}
    {w : List UInt8} (h : F a w) : x.Awaits w a where
  takes r more hbytes := by
    obtain ⟨r', hr', hsplits⟩ := hx.complete h hbytes
    exact ⟨r', hr', List.append_cancel_left (hsplits.1.symm.trans hbytes)⟩
  starves r hr hlt a' r' hok := by
    obtain ⟨w', h', hsplits⟩ := hx.sound hok
    obtain ⟨more, rfl⟩ := hr
    -- the word that has been read is in front of the one that is awaited
    have heq : (r.bytes ++ more) ++ [] = w' ++ (r'.bytes ++ more) := by
      rw [List.append_nil, hsplits.1, List.append_assoc]
    have hnil := (hx.unique h h' heq).2
    rw [(List.append_eq_nil_iff.mp hnil.symm).2, List.append_nil] at hlt
    exact Nat.lt_irrefl _ hlt

/-- On a stream with a front of the word and more behind it, the word is taken or it is not there as
a whole. -/
theorem Awaits.of_front {x : ChunkReader α} {w more : List UInt8} {a : α} (h : x.Awaits w a)
    {r : Chunked} (hr : r.bytes <+: w ++ more) :
    (∃ r', x r = .ok (a, r') ∧ r'.bytes <+: more) ∨
      r.bytes.length < w.length ∧ ∀ a' r', x r ≠ .ok (a', r') := by
  rcases front_cases hr with ⟨hfront, hshort⟩ | ⟨rest, hbytes, hrest⟩
  · exact .inr ⟨hshort, h.starves r hfront hshort⟩
  · obtain ⟨r', hr', heq⟩ := h.takes r rest hbytes
    exact .inl ⟨r', hr', heq ▸ hrest⟩

end ChunkReader

end Library
