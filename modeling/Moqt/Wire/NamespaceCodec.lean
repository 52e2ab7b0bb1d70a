import Moqt.Wire.Layout

/-! The codec of track namespaces: which namespaces are encoded, what is read back of them, and which
byte strings are refused.  The namespace is the key that subscriptions are routed by, so that no two
of them may have the same bytes. -/

namespace Moqt.Wire

open Library Decoder

/-! ### Encoding -/

/-- A namespace as a program holds it: no vector has more than `isize::MAX` bytes. -/
structure HeldNamespace extends TrackNamespace where
  count_fits : fields.length * sizeOfVec ≤ isizeMax
  fields_fit : ∀ field ∈ fields, field.length ≤ isizeMax

theorem HeldNamespace.toNat_count (ns : HeldNamespace) :
    ns.fields.length.toUInt64.toNat = ns.fields.length := by
  have hfits := ns.count_fits
  unfold sizeOfVec isizeMax at hfits
  exact toNat_length (by omega)

theorem encodeNamespaceFields_words {fields : List Bytes} {w : Bytes}
    (h : encodeNamespaceFields fields = .ok w) (hfit : ∀ field ∈ fields, field.length ≤ isizeMax) :
    ∃ words, List.Forall₂ LengthPrefixed fields words ∧ w = words.flatten := by
  induction fields generalizing w with
  | nil =>
    obtain rfl := Outcome.ok.inj h
    exact ⟨[], .nil, rfl⟩
  | cons field fields ih =>
    simp only [encodeNamespaceFields, ok_bind, ok_ensure, ok_pure] at h
    obtain ⟨-, -, tail, htail, rfl⟩ := h
    obtain ⟨hfirst, hrest⟩ := List.forall_mem_cons.mp hfit
    obtain ⟨words, hwords, rfl⟩ := ih htail hrest
    have hlength : field.length < 2 ^ 64 := Nat.lt_of_le_of_lt hfirst (by decide)
    exact ⟨_ :: words, .cons (lengthPrefixed_encode hlength) hwords, rfl⟩

/-- What is written is laid out as the decoder expects. -/
theorem HeldNamespace.layout {ns : HeldNamespace} {w : Bytes}
    (h : encodeTrackNamespace ns.toTrackNamespace = .ok w) : ns.Layout w := by
  simp only [encodeTrackNamespace, ok_bind, ok_ensure, ok_pure, decide_eq_true_eq,
    UInt64.le_iff_toNat_le, ns.toNat_count] at h
  obtain ⟨-, hmax, body, hbody, rfl⟩ := h
  obtain ⟨words, hwords, rfl⟩ := encodeNamespaceFields_words hbody ns.fields_fit
  exact ⟨⟨hmax, (encodeNamespaceFields_ok hbody).1⟩, _, _, words, isVarint_encode _,
    ns.toNat_count, hwords, rfl⟩

theorem HeldNamespace.encodes_iff (ns : HeldNamespace) :
    (∃ w, encodeTrackNamespace ns.toTrackNamespace = .ok w) ↔ ns.Valid := by
  constructor
  · rintro ⟨w, hw⟩
    exact (layout hw).1
  · intro hvalid
    exact exists_encodeTrackNamespace hvalid.count hvalid.nonempty

/-! ### Refused bytes -/

/-- The decoder ends in an error. -/
def Refused {α : Type} (d : Decoder α) (b : Bytes) : Prop :=
  ∃ m, (d b).outcome = .err m

theorem refused_of_not_returns {b : Bytes}
    (h : ∀ ns rest, ¬decodeTrackNamespace.Returns b ns rest) : Refused decodeTrackNamespace b := by
  have hwithin : decodeTrackNamespace.Within _ b.length b :=
    decodeTrackNamespace_within (Nat.le_refl _) (Nat.le_refl _)
  exact exists_err_of_not_returns hwithin.noPanic h

/-- Behind the count and fewer fields than it announces, the length `len` of a field is read, with
`left` behind it. -/
def DeclaresField (b : Bytes) (len : UInt64) (left : Bytes) : Prop :=
  ∃ count n read words rest, IsVarint count n ∧ read.length < count.toNat ∧
    List.Forall₂ LengthPrefixed read words ∧ b = n ++ (words.flatten ++ rest) ∧
    decodeVarint.Returns rest len left

theorem lengthPrefixed_reads : (decodeBytes "").Reads LengthPrefixed := decodeBytes_reads _

/-- Fields in front of the same bytes are the same, as far as they go. -/
theorem eq_append_of_flatten {read fields words words' : List Bytes} {rest r : Bytes}
    (h : List.Forall₂ LengthPrefixed read words) (h' : List.Forall₂ LengthPrefixed fields words')
    (hlt : read.length < fields.length) (heq : words.flatten ++ rest = words'.flatten ++ r) :
    ∃ field more word tail, fields = read ++ field :: more ∧ LengthPrefixed field word ∧
      rest = word ++ tail := by
  induction h generalizing fields words' with
  | nil =>
    cases h' with
    | nil => exact absurd hlt (Nat.lt_irrefl _)
    | @cons field word more words' hword _ =>
      rw [List.flatten_nil, List.nil_append, List.flatten_cons, List.append_assoc] at heq
      exact ⟨field, more, word, _, rfl, hword, heq⟩
  | @cons a u read words hu _ ih =>
    cases h' with
    | nil => exact absurd hlt (Nat.not_lt_zero _)
    | @cons b v fields words' hv hrest =>
      simp only [List.flatten_cons, List.append_assoc] at heq
      obtain ⟨rfl, -, heq⟩ := lengthPrefixed_reads.append_inj hu hv heq
      obtain ⟨field, more, word, tail, rfl, hword, hrest⟩ :=
        ih hrest (Nat.lt_of_succ_lt_succ hlt) heq
      exact ⟨field, more, word, tail, rfl, hword, hrest⟩

/-- Of an accepted namespace, each declared length is that of a field, and its bytes are there. -/
theorem length_of_declaresField {b left rest : Bytes} {len : UInt64} {ns : TrackNamespace}
    (h : DeclaresField b len left) (hreturns : decodeTrackNamespace.Returns b ns rest) :
    0 < len.toNat ∧ len.toNat ≤ left.length := by
  obtain ⟨count, n, read, words, behind, hn, hlt, hread, rfl, hlen⟩ := h
  obtain ⟨_, ⟨hvalid, count', n', words', hn', hcount, hfields, rfl⟩, heq⟩ :=
    (decodeTrackNamespace_reads _ _ _).mp hreturns
  rw [List.append_assoc] at heq
  obtain ⟨rfl, -, heq⟩ := hn.append_inj hn' heq
  rw [hcount] at hlt
  obtain ⟨field, more, word, tail, hfield, hword, rfl⟩ := eq_append_of_flatten hread hfields hlt heq
  obtain ⟨len', hlen', hlength⟩ := hword.returns tail
  obtain ⟨rfl, rfl⟩ := hlen.unique hlen'
  have hne : field ≠ [] := hvalid.nonempty field (by simp [hfield])
  rw [hlength, List.length_append]
  exact ⟨List.length_pos_iff.mpr hne, Nat.le_add_right _ _⟩

/-! ### The codec -/

/-- Exactly the namespaces with at most 32 fields, none of them empty, are encoded, read back
whatever comes behind them, and accepted; no encoding is in front of another's. -/
structure NamespaceCodec : Prop where
  encodes_iff : ∀ ns : HeldNamespace,
    (∃ w, encodeTrackNamespace ns.toTrackNamespace = .ok w) ↔
      ns.fields.length ≤ 32 ∧ ∀ field ∈ ns.fields, field ≠ []
  readBack : ∀ (ns : HeldNamespace) w, encodeTrackNamespace ns.toTrackNamespace = .ok w →
    ∀ trailing, decodeTrackNamespace.Returns (w ++ trailing) ns.toTrackNamespace trailing
  accepted : ∀ b ns rest, decodeTrackNamespace.Returns b ns rest →
    ns.fields.length ≤ 32 ∧ ∀ field ∈ ns.fields, field ≠ []
  tooMany : ∀ b count rest, decodeVarint.Returns b count rest → 32 < count →
    Refused decodeTrackNamespace b
  emptyField : ∀ b left, DeclaresField b 0 left → Refused decodeTrackNamespace b
  truncated : ∀ b len left, DeclaresField b len left → left.length < len.toNat →
    Refused decodeTrackNamespace b
  prefixFree : ∀ (ns ns' : HeldNamespace) w w', encodeTrackNamespace ns.toTrackNamespace = .ok w →
    encodeTrackNamespace ns'.toTrackNamespace = .ok w' → w <+: w' →
      ns.toTrackNamespace = ns'.toTrackNamespace

theorem namespaceCodec : NamespaceCodec where
  encodes_iff := by
    intro ns
    rw [ns.encodes_iff]
    exact ⟨fun h => ⟨h.count, h.nonempty⟩, fun h => ⟨h.1, h.2⟩⟩
  readBack := fun _ _ hw => decodeTrackNamespace_reads.takes (HeldNamespace.layout hw)
  accepted := by
    intro b ns rest hreturns
    have hvalid := (namespace_of_returns hreturns).1
    exact ⟨hvalid.count, hvalid.nonempty⟩
  tooMany := by
    intro b count rest hcount hmany
    refine refused_of_not_returns fun ns r hreturns => ?_
    obtain ⟨count', mid, hcount', hrest⟩ := returns_bind.mp hreturns
    obtain ⟨rfl, -⟩ := hcount.unique hcount'
    obtain ⟨_, _, hensure, -⟩ := returns_bind.mp hrest
    have hle := of_decide_eq_true (returns_ensure.mp hensure).1
    exact absurd hle (UInt64.not_le.mpr hmany)
  emptyField := by
    intro b left hfield
    refine refused_of_not_returns fun ns r hreturns => ?_
    exact absurd (length_of_declaresField hfield hreturns).1 (Nat.lt_irrefl 0)
  truncated := by
    intro b len left hfield hshort
    refine refused_of_not_returns fun ns r hreturns => ?_
    exact absurd (length_of_declaresField hfield hreturns).2 (Nat.not_le_of_lt hshort)
  prefixFree := fun _ _ _ _ hw hw' => decodeTrackNamespace_reads.eq_of_isPrefix
    (HeldNamespace.layout hw) (HeldNamespace.layout hw')

end Moqt.Wire
