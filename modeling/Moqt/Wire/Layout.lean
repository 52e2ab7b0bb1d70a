import Moqt.Wire.Grammar

/-! The layout of a request's payload: its fields in the order in which they are written, with the
lengths that the bytes declare for themselves. -/

namespace Moqt.Wire

open Library Decoder

/-! ### Byte strings and namespaces -/

theorem decodeVarint_reads : decodeVarint.Reads IsVarint := fun _ _ _ => returns_decodeVarint_iff

theorem decodeReasonPhrase_reads : decodeReasonPhrase.Reads fun rp w =>
    rp.value.length ≤ MAX_LENGTH.toNat ∧ LengthPrefixed rp.value w := by
  intro b rp r
  rw [returns_decodeReasonPhrase]
  constructor
  · rintro ⟨hmax, w, hw, rfl⟩
    exact ⟨w, ⟨hmax, hw⟩, rfl⟩
  · rintro ⟨w, ⟨hmax, hw⟩, rfl⟩
    exact ⟨hmax, w, hw, rfl⟩

/-- A number of bytes that the bytes in front of them declare. -/
theorem returns_block {b r bytes : Bytes} {m : Nat → String} :
    (do
      let len := (← decodeVarint).toNat
      ensureLen len m
      let bytes ← slice len
      advance len
      return bytes : Decoder Bytes).Returns b bytes r ↔
      ∃ w, LengthPrefixed bytes w ∧ b = w ++ r := by
  simp only [returns_bind, returns_ensureLen, returns_slice, returns_advance, returns_pure,
    returns_decodeVarint_iff]
  constructor
  · rintro ⟨len, mid, ⟨c, hc, rfl⟩, -, _, ⟨hle, rfl⟩, _, _, ⟨-, rfl, rfl⟩, -, _, ⟨-, rfl⟩, rfl, rfl⟩
    refine ⟨_, ⟨len, c, hc, (List.length_take_of_le hle).symm, rfl⟩, ?_⟩
    rw [List.append_assoc, List.take_append_drop]
  · rintro ⟨_, ⟨len, c, hc, hlen, rfl⟩, rfl⟩
    refine ⟨len, _, ⟨c, hc, List.append_assoc _ _ _⟩, (), _, ⟨?_, rfl⟩, bytes, _, ⟨?_, ?_, rfl⟩,
      (), _, ⟨?_, rfl⟩, rfl, ?_⟩
    all_goals simp [hlen]

theorem decodeBytes_reads (m : String) : (decodeBytes m).Reads LengthPrefixed :=
  fun _ _ _ => returns_block

theorem decodeNamespaceField_reads (fields : List Bytes) :
    (decodeNamespaceField fields).Reads fun fields' w =>
      ∃ field, field ≠ [] ∧ LengthPrefixed field w ∧ fields' = fields ++ [field] := by
  intro b fields' r
  have hcheck (len : UInt64) : decide (0 < len) = true ↔ 0 < len.toNat := by
    rw [decide_eq_true_eq, UInt64.lt_iff_toNat_lt]
    rfl
  refine (returns_checkedBlock (0 < ·) hcheck).trans ?_
  constructor
  · rintro ⟨field, w, hpos, hw, rfl, rfl⟩
    exact ⟨w, ⟨field, List.length_pos_iff.mp hpos, hw, rfl⟩, rfl⟩
  · rintro ⟨w, ⟨field, hne, hw, rfl⟩, rfl⟩
    exact ⟨field, w, List.length_pos_iff.mpr hne, hw, rfl, rfl⟩

/-- The bytes of a namespace: the number of its fields, and each field behind its length. -/
def TrackNamespace.Layout (ns : TrackNamespace) (w : Bytes) : Prop :=
  ns.Valid ∧ ∃ count n words, IsVarint count n ∧ count.toNat = ns.fields.length ∧
    List.Forall₂ LengthPrefixed ns.fields words ∧ w = n ++ words.flatten

theorem chain_namespaceField {n : Nat} {fields fields' : List Bytes} {w : Bytes} :
    Chain (fun fields fields' w => ∃ field, field ≠ [] ∧ LengthPrefixed field w ∧
      fields' = fields ++ [field]) n fields fields' w ↔
    ∃ read words, fields' = fields ++ read ∧ read.length = n ∧ (∀ field ∈ read, field ≠ []) ∧
      List.Forall₂ LengthPrefixed read words ∧ w = words.flatten := by
  induction n generalizing fields w with
  | zero =>
    constructor
    · rintro ⟨rfl, rfl⟩
      exact ⟨[], [], (List.append_nil _).symm, rfl, by simp, .nil, rfl⟩
    · rintro ⟨read, words, rfl, hlen, -, hwords, rfl⟩
      obtain rfl := List.eq_nil_of_length_eq_zero hlen
      cases hwords
      exact ⟨(List.append_nil _).symm, rfl⟩
  | succ n ih =>
    simp only [Chain, ih]
    constructor
    · rintro ⟨_, u, _, ⟨field, hne, hu, rfl⟩, ⟨read, words, rfl, rfl, hread, hwords, rfl⟩, rfl⟩
      refine ⟨field :: read, u :: words, by simp, rfl, ?_, .cons hu hwords, rfl⟩
      exact List.forall_mem_cons.mpr ⟨hne, hread⟩
    · rintro ⟨read, words, rfl, hlen, hread, hwords, rfl⟩
      cases hwords with
      | nil => simp at hlen
      | @cons field u read words hu hwords =>
        obtain ⟨hne, hread⟩ := List.forall_mem_cons.mp hread
        exact ⟨fields ++ [field], u, _, ⟨field, hne, hu, rfl⟩,
          ⟨read, words, by simp, Nat.succ.inj hlen, hread, hwords, rfl⟩, rfl⟩

theorem decodeTrackNamespace_reads : decodeTrackNamespace.Reads TrackNamespace.Layout := by
  have hloop : ∀ n : Nat, (forCount n [] decodeNamespaceField).Reads _ :=
    fun _ => Reads.forCount decodeNamespaceField_reads
  intro b ns r
  simp only [decodeTrackNamespace, returns_bind, returns_ensure, returns_withCapacity,
    returns_pure, returns_decodeVarint_iff, hloop _ _ _ _, chain_namespaceField, decide_eq_true_eq,
    UInt64.le_iff_toNat_le, List.nil_append]
  constructor
  · rintro ⟨count, _, ⟨n, hn, rfl⟩, -, _, ⟨hmax, rfl⟩, -, _, ⟨-, rfl⟩, _, _,
      ⟨_, ⟨read, words, rfl, hlen, hread, hwords, rfl⟩, rfl⟩, rfl, rfl⟩
    exact ⟨n ++ words.flatten, ⟨⟨hlen.trans_le hmax, hread⟩, count, n, words, hn, hlen.symm,
      hwords, rfl⟩, (List.append_assoc _ _ _).symm⟩
  · rintro ⟨_, ⟨hvalid, count, n, words, hn, hlen, hwords, rfl⟩, rfl⟩
    have hmax : count.toNat ≤ MAX_FIELDS.toNat := hlen.trans_le hvalid.count
    have hsize : count.toNat * sizeOfVec ≤ isizeMax := by
      have hle : count.toNat ≤ 32 := hmax
      unfold sizeOfVec isizeMax
      omega
    exact ⟨count, _, ⟨n, hn, List.append_assoc _ _ _⟩, (), _, ⟨hmax, rfl⟩, (), _, ⟨hsize, rfl⟩,
      ns.fields, r, ⟨_, ⟨ns.fields, words, rfl, hlen.symm, hvalid.nonempty, hwords, rfl⟩, rfl⟩,
      rfl, rfl⟩

/-! ### Parameters -/

/-- The bytes behind a filter type are those of the type's fields, and whatever comes after. -/
theorem returns_decodeFilterFields {filterType : UInt64} {t left b r : Bytes}
    {filter : SubscriptionFilter} (ht : IsVarint filterType t) :
    (decodeFilterFields filterType left).Returns b filter r ↔
      b = r ∧ ∃ content behind, filter.Payload content ∧ t ++ left = content ++ behind := by
  simp only [decodeFilterFields, returns_ite, returns_bind, returns_onSlice, returns_pure,
    returns_bail, returns_decodeVarint_iff, beq_iff_eq]
  constructor
  · rintro (⟨rfl, rfl, rfl⟩ | ⟨-, ⟨rfl, rfl, rfl⟩ | ⟨-, ⟨rfl, ⟨group, _⟩, _, ⟨⟨g, hg, rfl⟩, rfl⟩,
      ⟨object, behind⟩, _, ⟨⟨o, ho, rfl⟩, rfl⟩, rfl, rfl⟩ | ⟨-, ⟨rfl, ⟨group, _⟩, _,
      ⟨⟨g, hg, rfl⟩, rfl⟩, ⟨object, _⟩, _, ⟨⟨o, ho, rfl⟩, rfl⟩, ⟨delta, behind⟩, _,
      ⟨⟨d, hd, rfl⟩, rfl⟩, rfl, rfl⟩ | ⟨-, h⟩⟩⟩⟩)
    · exact ⟨rfl, t, left, ht, rfl⟩
    · exact ⟨rfl, t, left, ht, rfl⟩
    · exact ⟨rfl, _, behind, ⟨t, g, o, ht, hg, ho, rfl⟩, by simp⟩
    · exact ⟨rfl, _, behind, ⟨t, g, o, d, ht, hg, ho, hd, rfl⟩, by simp⟩
    · exact h.elim
  · rintro ⟨rfl, content, behind, hcontent, heq⟩
    cases filter with
    | nextGroupStart =>
      obtain ⟨rfl, -⟩ := ht.append_inj hcontent heq
      exact .inl ⟨rfl, rfl, rfl⟩
    | largestObject =>
      obtain ⟨rfl, -⟩ := ht.append_inj hcontent heq
      exact .inr ⟨by decide, .inl ⟨rfl, rfl, rfl⟩⟩
    | absoluteStart group object =>
      obtain ⟨t', g, o, ht', hg, ho, rfl⟩ := hcontent
      simp only [List.append_assoc] at heq
      obtain ⟨rfl, -, rfl⟩ := ht.append_inj ht' heq
      exact .inr ⟨by decide, .inr ⟨by decide, .inl ⟨rfl, (group, _), b, ⟨⟨g, hg, rfl⟩, rfl⟩,
        (object, behind), b, ⟨⟨o, ho, rfl⟩, rfl⟩, rfl, rfl⟩⟩⟩
    | absoluteRange group object delta =>
      obtain ⟨t', g, o, d, ht', hg, ho, hd, rfl⟩ := hcontent
      simp only [List.append_assoc] at heq
      obtain ⟨rfl, -, rfl⟩ := ht.append_inj ht' heq
      exact .inr ⟨by decide, .inr ⟨by decide, .inr ⟨by decide, .inl ⟨rfl, (group, _), b,
        ⟨⟨g, hg, rfl⟩, rfl⟩, (object, _), b, ⟨⟨o, ho, rfl⟩, rfl⟩, (delta, behind), b,
        ⟨⟨d, hd, rfl⟩, rfl⟩, rfl, rfl⟩⟩⟩⟩

/-- A filter stands in front of the bytes that its length declares. -/
theorem decodeSubscriptionFilter_reads : decodeSubscriptionFilter.Reads fun filter w =>
    ∃ content behind, filter.Payload content ∧ LengthPrefixed (content ++ behind) w := by
  intro b filter r
  simp only [decodeSubscriptionFilter, returns_bind, returns_ensureLen, returns_slice,
    returns_onSlice, returns_advance, returns_decodeVarint_iff]
  constructor
  · rintro ⟨len, _, ⟨c, hc, rfl⟩, -, _, ⟨hle, rfl⟩, _, _, ⟨-, rfl, rfl⟩, ⟨filterType, left⟩, _,
      ⟨⟨t, ht, hslice⟩, rfl⟩, -, _, ⟨-, rfl⟩, hfields⟩
    obtain ⟨rfl, content, behind, hcontent, heq⟩ := (returns_decodeFilterFields ht).mp hfields
    have htake := List.length_take_of_le hle
    rw [hslice, heq] at htake
    refine ⟨_, ⟨content, behind, hcontent, len, c, hc, htake.symm, rfl⟩, ?_⟩
    rw [List.append_assoc, ← heq, ← hslice, List.take_append_drop]
  · rintro ⟨_, ⟨content, behind, hcontent, len, c, hc, hlen, rfl⟩, rfl⟩
    obtain ⟨filterType, t, left, ht, heq⟩ :
        ∃ filterType t left, IsVarint filterType t ∧ content = t ++ left := by
      obtain ⟨filterType, left, htype, -⟩ := returns_filterPayload hcontent
      obtain ⟨t, ht, heq⟩ := returns_decodeVarint_iff.mp htype
      exact ⟨filterType, t, left, ht, heq⟩
    have hfields : (decodeFilterFields filterType (left ++ behind)).Returns r filter r := by
      refine (returns_decodeFilterFields ht).mpr ⟨rfl, content, behind, hcontent, ?_⟩
      rw [heq, List.append_assoc]
    have hle : len.toNat ≤ (content ++ behind ++ r).length := by
      rw [hlen]
      exact (List.prefix_append _ r).length_le
    refine ⟨len, _, ⟨c, hc, List.append_assoc _ _ _⟩, (), _, ⟨hle, rfl⟩, content ++ behind, _,
      ⟨hle, List.take_left' hlen.symm, rfl⟩, (filterType, left ++ behind), _, ⟨⟨t, ht, ?_⟩, rfl⟩,
      (), r, ⟨hle, List.drop_left' hlen.symm⟩, hfields⟩
    rw [heq, List.append_assoc]

/-- A length that the bytes declare, and that of the content which is read in its place. -/
structure Region where
  declared : Nat
  content : Nat
deriving DecidableEq, Repr

/-- The value of a parameter as the reader takes it: a filter's content may end before the bytes
that its length declares. -/
def Parameter.Layout : Parameter → List Region → Bytes → Prop
  | .subscriptionFilter filter, regions, w => ∃ content behind, filter.Payload content ∧
      LengthPrefixed (content ++ behind) w ∧
      regions = [⟨(content ++ behind).length, content.length⟩]
  | p, regions, w => p.Value w ∧ regions = []

theorem returns_decodeUInt8_iff {m : String} {b r : Bytes} {v : UInt8} :
    (decodeUInt8 m).Returns b v r ↔ b = v :: r := by
  simp only [decodeUInt8, returns_bind, returns_ensureLen, returns_first, returns_advance,
    returns_pure]
  constructor
  · rintro ⟨-, _, ⟨-, rfl⟩, _, _, ⟨hhead, rfl⟩, -, _, ⟨-, rfl⟩, rfl, rfl⟩
    cases b with
    | nil => simp at hhead
    | cons byte b =>
      rw [List.head?_cons, Option.some.injEq] at hhead
      rw [hhead]
      rfl
  · rintro rfl
    exact ⟨(), _, ⟨by simp, rfl⟩, v, _, ⟨rfl, rfl⟩, (), r, ⟨by simp, rfl⟩, rfl, rfl⟩

theorem decodeParameterValue_reads (typeId : UInt64) :
    (decodeParameterValue typeId).Reads fun value w => ∃ (p : Parameter) (regions : List Region),
      p.typeId = typeId ∧ p.kept = value ∧ p.Layout regions w := by
  intro b value r
  constructor
  · intro h
    simp only [decodeParameterValue, returns_ite, returns_bind, returns_pure, returns_bail,
      returns_decodeVarint_iff, decodeSubscriptionFilter_reads _ _ _, returns_decodeUInt8_iff,
      returns_skipLengthPrefixed, beq_iff_eq, and_false, or_false] at h
    rcases h with ⟨rfl, filter, _, ⟨w, ⟨content, behind, hcontent, hw⟩, rfl⟩, rfl, rfl⟩ | ⟨-, h⟩
    · exact ⟨w, ⟨.subscriptionFilter filter, _, rfl, rfl, content, behind, hcontent, hw, rfl⟩, rfl⟩
    rcases h with ⟨rfl, group, _, ⟨g, hg, rfl⟩, object, _, ⟨o, ho, rfl⟩, rfl, rfl⟩ | ⟨-, h⟩
    · exact ⟨g ++ o, ⟨.largestObject group object, [], rfl, rfl, ⟨g, o, hg, ho, rfl⟩, rfl⟩,
        (List.append_assoc _ _ _).symm⟩
    rcases h with ⟨rfl, v, _, rfl, rfl, rfl⟩ | ⟨-, h⟩
    · exact ⟨[v], ⟨.forward v, [], rfl, rfl, rfl, rfl⟩, rfl⟩
    rcases h with ⟨rfl, v, _, ⟨w, hw, rfl⟩, rfl, rfl⟩ | ⟨-, h⟩
    · exact ⟨w, ⟨.deliveryTimeout v, [], rfl, rfl, hw, rfl⟩, rfl⟩
    rcases h with ⟨rfl, -, _, ⟨token, w, hw, rfl⟩, rfl, rfl⟩ | ⟨-, h⟩
    · exact ⟨w, ⟨.authorizationToken token, [], rfl, rfl, hw, rfl⟩, rfl⟩
    rcases h with ⟨rfl, v, _, ⟨w, hw, rfl⟩, rfl, rfl⟩ | ⟨-, h⟩
    · exact ⟨w, ⟨.rendezvousTimeout v, [], rfl, rfl, hw, rfl⟩, rfl⟩
    rcases h with ⟨rfl, v, _, ⟨w, hw, rfl⟩, rfl, rfl⟩ | ⟨-, h⟩
    · exact ⟨w, ⟨.expires v, [], rfl, rfl, hw, rfl⟩, rfl⟩
    rcases h with ⟨rfl, v, _, rfl, rfl, rfl⟩ | ⟨-, h⟩
    · exact ⟨[v], ⟨.subscriberPriority v, [], rfl, rfl, rfl, rfl⟩, rfl⟩
    rcases h with ⟨rfl, v, _, rfl, rfl, rfl⟩ | ⟨-, rfl, v, _, ⟨w, hw, rfl⟩, rfl, rfl⟩
    · exact ⟨[v], ⟨.groupOrder v, [], rfl, rfl, rfl, rfl⟩, rfl⟩
    · exact ⟨w, ⟨.newGroupRequest v, [], rfl, rfl, hw, rfl⟩, rfl⟩
  · rintro ⟨w, ⟨p, regions, rfl, rfl, hp⟩, rfl⟩
    cases p with
    | subscriptionFilter filter =>
      obtain ⟨content, behind, hcontent, hw, -⟩ := hp
      have hfilter := (decodeSubscriptionFilter_reads (w ++ r) filter r).mpr
        ⟨w, ⟨content, behind, hcontent, hw⟩, rfl⟩
      exact returns_bind.mpr ⟨filter, r, hfilter, rfl, rfl⟩
    | deliveryTimeout _ | authorizationToken _ | rendezvousTimeout _ | expires _
    | largestObject _ _ | forward _ | subscriberPriority _ | groupOrder _ | newGroupRequest _ =>
      exact returns_decodeParameterValue hp.1 r

/-- The type that the next type is coded against: the reader passes over a parameter that it does
not keep. -/
def Parameter.typeAfter (prev : UInt64) (p : Parameter) : UInt64 :=
  if p.kept.isSome then p.typeId else prev

/-- The bytes of a list of parameters as the reader takes them, after a type `prev`. -/
inductive ParameterList : UInt64 → List Parameter → List Region → Bytes → Prop
  | nil (prev : UInt64) : ParameterList prev [] [] []
  | cons {prev delta : UInt64} {p : Parameter} {ps : List Parameter} {d v body : Bytes}
      {inside behind : List Region} (hdelta : IsVarint delta d)
      (htype : prev.toNat + delta.toNat = p.typeId.toNat) (hvalue : p.Layout inside v)
      (hbody : ParameterList (p.typeAfter prev) ps behind body) :
      ParameterList prev (p :: ps) (inside ++ behind) (d ++ (v ++ body))

/-- A parameter takes at least the byte of its type. -/
theorem ParameterList.length_le {prev : UInt64} {ps : List Parameter} {regions : List Region}
    {body : Bytes} (h : ParameterList prev ps regions body) : ps.length ≤ body.length := by
  induction h with
  | nil prev => exact Nat.le_refl _
  | cons hdelta _ _ _ ih =>
    have hpos := List.length_pos_iff.mpr hdelta.ne_nil
    simp only [List.length_cons, List.length_append]
    omega

/-- The bytes of the parameters of a message: their count, and the parameters, of which the message
has those that are kept. -/
def ParametersLayout (params : List MessageParameter) (regions : List Region) (w : Bytes) : Prop :=
  ∃ ps count n body, IsVarint count n ∧ count.toNat = ps.length ∧
    ParameterList 0 ps regions body ∧ ps.filterMap Parameter.kept = params ∧ w = n ++ body

theorem decodeParameter_reads (prev : UInt64) :
    (decodeParameter prev).Reads fun read w => ∃ (p : Parameter) (delta : UInt64)
      (regions : List Region) (d v : Bytes), IsVarint delta d ∧
        prev.toNat + delta.toNat = p.typeId.toNat ∧ p.Layout regions v ∧
        read = (p.typeId, p.kept) ∧ w = d ++ v := by
  intro b read r
  simp only [decodeParameter, returns_bind, returns_checkedAdd, returns_pure,
    returns_decodeVarint_iff, decodeParameterValue_reads _ _ _ _]
  constructor
  · rintro ⟨delta, _, ⟨d, hd, rfl⟩, _, _, ⟨hfits, rfl, rfl⟩, value, _,
      ⟨v, ⟨p, regions, htype, rfl, hv⟩, rfl⟩, rfl, rfl⟩
    refine ⟨d ++ v, ⟨p, delta, regions, d, v, hd, ?_, hv, by rw [htype], rfl⟩,
      (List.append_assoc _ _ _).symm⟩
    rw [htype, UInt64.toNat_add, Nat.mod_eq_of_lt hfits]
  · rintro ⟨_, ⟨p, delta, regions, d, v, hd, htype, hv, rfl, rfl⟩, rfl⟩
    have hfits := p.typeId.toNat_lt
    have hsum : prev + delta = p.typeId := by
      apply UInt64.toNat.inj
      rw [UInt64.toNat_add, htype, Nat.mod_eq_of_lt hfits]
    exact ⟨delta, _, ⟨d, hd, List.append_assoc _ _ _⟩, p.typeId, _, ⟨by omega, hsum, rfl⟩, p.kept,
      r, ⟨v, ⟨p, regions, rfl, rfl, hv⟩, rfl⟩, rfl, rfl⟩

/-- What an iteration pushes, in terms of the parameter that it has read. -/
theorem ParameterLoop.push_kept (s : ParameterLoop) (p : Parameter) :
    s.push (p.typeId, p.kept) = ⟨s.params ++ p.kept.toList, p.typeAfter s.prevType⟩ := by
  unfold Parameter.typeAfter
  cases p.kept with
  | none => simp [ParameterLoop.push]
  | some param => rfl

/-- The bytes of an iteration. -/
def ParameterLoop.Step (s s' : ParameterLoop) (w : Bytes) : Prop :=
  ∃ (p : Parameter) (delta : UInt64) (regions : List Region) (d v : Bytes), IsVarint delta d ∧
    s.prevType.toNat + delta.toNat = p.typeId.toNat ∧ p.Layout regions v ∧
    s' = ⟨s.params ++ p.kept.toList, p.typeAfter s.prevType⟩ ∧ w = d ++ v

theorem ParameterLoop.body_reads (s : ParameterLoop) : s.body.Reads s.Step := by
  intro b s' r
  simp only [ParameterLoop.body, returns_bind, returns_pure, decodeParameter_reads _ _ _ _]
  constructor
  · rintro ⟨_, _, ⟨w, ⟨p, delta, regions, d, v, hd, htype, hv, rfl, rfl⟩, rfl⟩, rfl, rfl⟩
    exact ⟨_, ⟨p, delta, regions, d, v, hd, htype, hv, s.push_kept p, rfl⟩, rfl⟩
  · rintro ⟨_, ⟨p, delta, regions, d, v, hd, htype, hv, rfl, rfl⟩, rfl⟩
    exact ⟨_, r, ⟨_, ⟨p, delta, regions, d, v, hd, htype, hv, rfl, rfl⟩, rfl⟩, s.push_kept p, rfl⟩

theorem ParameterLoop.list_of_chain {n : Nat} {s s' : ParameterLoop} {w : Bytes}
    (h : Chain Step n s s' w) : ∃ ps regions, ps.length = n ∧
      ParameterList s.prevType ps regions w ∧
      s'.params = s.params ++ ps.filterMap Parameter.kept := by
  induction n generalizing s w with
  | zero =>
    obtain ⟨rfl, rfl⟩ := h
    exact ⟨[], [], rfl, .nil _, by simp⟩
  | succ n ih =>
    obtain ⟨_, _, body, ⟨p, delta, inside, d, v, hd, htype, hv, rfl, rfl⟩, hrest, rfl⟩ := h
    obtain ⟨ps, behind, rfl, hps, hparams⟩ := ih hrest
    refine ⟨p :: ps, inside ++ behind, rfl, ?_, ?_⟩
    · rw [List.append_assoc]
      exact .cons hd htype hv hps
    · rw [hparams, List.append_assoc]
      cases hkept : p.kept <;> simp [hkept]

theorem ParameterList.chain {prev : UInt64} {ps : List Parameter} {regions : List Region}
    {w : Bytes} (h : ParameterList prev ps regions w) (params : List MessageParameter) :
    ∃ s' : ParameterLoop, s'.params = params ++ ps.filterMap Parameter.kept ∧
      Chain ParameterLoop.Step ps.length ⟨params, prev⟩ s' w := by
  induction h generalizing params with
  | nil prev => exact ⟨⟨params, prev⟩, by simp, rfl, rfl⟩
  | @cons prev delta p ps d v body inside behind hd htype hv hbody ih =>
    obtain ⟨s', hs', hchain⟩ := ih (params ++ p.kept.toList)
    refine ⟨s', ?_, _, d ++ v, body, ⟨p, delta, inside, d, v, hd, htype, hv, rfl, rfl⟩, hchain,
      (List.append_assoc _ _ _).symm⟩
    rw [hs', List.append_assoc]
    cases hkept : p.kept <;> simp [hkept]

/-- A list of parameters is read as it is laid out, if a vector of its length can be allocated. -/
theorem returns_decodeParameters {params : List MessageParameter} {b r : Bytes} :
    decodeParameters.Returns b params r ↔ ∃ regions w, b = w ++ r ∧
      ParametersLayout params regions w ∧ ∃ count mid, decodeVarint.Returns b count mid ∧
        count.toNat * sizeOfMessageParameter ≤ isizeMax := by
  have hloop : ∀ (n : Nat) s, (forCount n s ParameterLoop.body).Reads _ :=
    fun _ _ => Reads.forCount ParameterLoop.body_reads
  simp only [decodeParameters, returns_bind, returns_withCapacity, returns_pure, hloop _ _ _ _ _]
  constructor
  · rintro ⟨count, mid, hcount, -, _, ⟨hsize, rfl⟩, s, _, ⟨body, hchain, rfl⟩, rfl, rfl⟩
    obtain ⟨ps, regions, hlen, hps, hparams⟩ := ParameterLoop.list_of_chain hchain
    obtain ⟨n, hn, rfl⟩ := returns_decodeVarint_iff.mp hcount
    exact ⟨regions, n ++ body, (List.append_assoc _ _ _).symm,
      ⟨ps, count, n, body, hn, hlen.symm, hps, by simpa using hparams.symm, rfl⟩, count, _, hcount,
      hsize⟩
  · rintro ⟨regions, _, rfl, ⟨ps, count, n, body, hn, hlen, hps, rfl, rfl⟩, count', mid, hcount,
      hsize⟩
    rw [List.append_assoc] at hcount ⊢
    obtain ⟨rfl, rfl⟩ := (hn.returns (body ++ r)).unique hcount
    obtain ⟨s', hs', hchain⟩ := hps.chain []
    rw [← hlen] at hchain
    exact ⟨count, _, hcount, (), _, ⟨hsize, rfl⟩, s', r, ⟨body, hchain, rfl⟩, by simpa using hs',
      rfl⟩

/-- A list that fits a frame can be allocated. -/
theorem ParametersLayout.returns {params : List MessageParameter} {regions : List Region}
    {w : Bytes} (h : ParametersLayout params regions w) (hfits : w.length ≤ maxPayload)
    (rest : Bytes) : decodeParameters.Returns (w ++ rest) params rest := by
  obtain ⟨ps, count, n, body, hn, hlen, hps, hkept, rfl⟩ := h
  refine returns_decodeParameters.mpr ⟨regions, n ++ body, rfl,
    ⟨ps, count, n, body, hn, hlen, hps, hkept, rfl⟩, count, body ++ rest, ?_, ?_⟩
  · rw [List.append_assoc]
    exact hn.returns _
  · have hle := hps.length_le
    rw [List.length_append] at hfits
    unfold maxPayload at hfits
    unfold sizeOfMessageParameter isizeMax
    omega

/-! ### Where a layout ends -/

/-- A filter's content ends where its fields do. -/
theorem SubscriptionFilter.Payload.append_inj {filter : SubscriptionFilter} {c c' x x' : Bytes}
    (h : filter.Payload c) (h' : filter.Payload c') (heq : c ++ x = c' ++ x') : c = c' := by
  cases filter with
  | nextGroupStart | largestObject => exact (IsVarint.append_inj h h' heq).2.1
  | absoluteStart group object =>
    obtain ⟨t, g, o, ht, hg, ho, rfl⟩ := h
    obtain ⟨t', g', o', ht', hg', ho', rfl⟩ := h'
    simp only [List.append_assoc] at heq
    obtain ⟨-, rfl, hgroup⟩ := ht.append_inj ht' heq
    obtain ⟨-, rfl, hobject⟩ := hg.append_inj hg' hgroup
    obtain ⟨-, rfl, -⟩ := ho.append_inj ho' hobject
    rfl
  | absoluteRange group object delta =>
    obtain ⟨t, g, o, d, ht, hg, ho, hd, rfl⟩ := h
    obtain ⟨t', g', o', d', ht', hg', ho', hd', rfl⟩ := h'
    simp only [List.append_assoc] at heq
    obtain ⟨-, rfl, hgroup⟩ := ht.append_inj ht' heq
    obtain ⟨-, rfl, hobject⟩ := hg.append_inj hg' hgroup
    obtain ⟨-, rfl, hdelta⟩ := ho.append_inj ho' hobject
    obtain ⟨-, rfl, -⟩ := hd.append_inj hd' hdelta
    rfl

theorem kept_eq_filter {p : Parameter} {filter : SubscriptionFilter}
    (h : p.kept = some (.subscriptionFilter filter)) : p = .subscriptionFilter filter := by
  cases p <;> simp_all [Parameter.kept]

theorem Parameter.Layout.regions_eq_nil {p : Parameter} {regions : List Region} {w : Bytes}
    (h : p.Layout regions w) (hp : ∀ filter, p.kept ≠ some (.subscriptionFilter filter)) :
    regions = [] := by
  cases p with
  | subscriptionFilter filter => exact absurd rfl (hp filter)
  | deliveryTimeout _ | authorizationToken _ | rendezvousTimeout _ | expires _
  | largestObject _ _ | forward _ | subscriberPriority _ | groupOrder _ | newGroupRequest _ =>
    exact h.2

theorem Parameter.Layout.append_inj {p p' : Parameter} {regions regions' : List Region}
    {v v' x x' : Bytes} (h : p.Layout regions v) (h' : p'.Layout regions' v')
    (htype : p.typeId = p'.typeId) (heq : v ++ x = v' ++ x') :
    regions = regions' ∧ v = v' ∧ x = x' := by
  obtain ⟨hkept, rfl, rfl⟩ := (decodeParameterValue_reads p.typeId).append_inj
    ⟨p, regions, rfl, rfl, h⟩ ⟨p', regions', htype.symm, rfl, h'⟩ heq
  refine ⟨?_, rfl, rfl⟩
  by_cases hfilter : ∃ filter, p.kept = some (.subscriptionFilter filter)
  · obtain ⟨filter, hp⟩ := hfilter
    obtain rfl := kept_eq_filter hp
    obtain rfl := kept_eq_filter (hkept.symm.trans hp)
    obtain ⟨content, behind, hcontent, hw, rfl⟩ := h
    obtain ⟨content', behind', hcontent', hw', rfl⟩ := h'
    obtain ⟨hsame, -⟩ := (decodeBytes_reads "").append_inj hw hw' (r := []) rfl
    obtain rfl := hcontent.append_inj hcontent' hsame
    rw [hsame]
  · have hp := not_exists.mp hfilter
    rw [h.regions_eq_nil hp, h'.regions_eq_nil fun filter => hkept ▸ hp filter]

theorem Parameter.typeAfter_congr {prev : UInt64} {p p' : Parameter} (h : p.typeId = p'.typeId) :
    p.typeAfter prev = p'.typeAfter prev := by
  have hkept : p.kept.isSome = p'.kept.isSome := by
    rw [Bool.eq_iff_iff, kept_isSome_iff, kept_isSome_iff, h]
  rw [Parameter.typeAfter, Parameter.typeAfter, hkept, h]

/-- A list of as many parameters ends at the same place, and declares the same lengths. -/
theorem ParameterList.append_inj {prev : UInt64} {ps ps' : List Parameter}
    {regions regions' : List Region} {w w' x x' : Bytes} (h : ParameterList prev ps regions w)
    (h' : ParameterList prev ps' regions' w') (hlen : ps.length = ps'.length)
    (heq : w ++ x = w' ++ x') : regions = regions' ∧ w = w' ∧ x = x' := by
  induction h generalizing ps' regions' w' with
  | nil prev =>
    obtain rfl := List.eq_nil_of_length_eq_zero hlen.symm
    cases h'
    exact ⟨rfl, rfl, heq⟩
  | @cons prev delta p ps d v body inside behind hdelta htype hvalue hbody ih =>
    cases h' with
    | nil => simp at hlen
    | @cons _ delta' p' ps' d' v' body' inside' behind' hdelta' htype' hvalue' hbody' =>
      simp only [List.append_assoc] at heq
      obtain ⟨rfl, rfl, hfirst⟩ := hdelta.append_inj hdelta' heq
      have hsame : p.typeId = p'.typeId := UInt64.toNat.inj (htype.symm.trans htype')
      obtain ⟨rfl, rfl, hrest⟩ := hvalue.append_inj hvalue' hsame hfirst
      rw [← Parameter.typeAfter_congr hsame] at hbody'
      obtain ⟨rfl, rfl, rfl⟩ := ih hbody' (Nat.succ.inj hlen) hrest
      exact ⟨rfl, rfl, rfl⟩

theorem ParametersLayout.append_inj {params params' : List MessageParameter}
    {regions regions' : List Region} {w w' x x' : Bytes} (h : ParametersLayout params regions w)
    (h' : ParametersLayout params' regions' w') (heq : w ++ x = w' ++ x') :
    regions = regions' ∧ w = w' ∧ x = x' := by
  obtain ⟨ps, count, n, body, hn, hlen, hps, -, rfl⟩ := h
  obtain ⟨ps', count', n', body', hn', hlen', hps', -, rfl⟩ := h'
  simp only [List.append_assoc] at heq
  obtain ⟨rfl, rfl, hlist⟩ := hn.append_inj hn' heq
  obtain ⟨rfl, rfl, rfl⟩ := hps.append_inj hps' (hlen.symm.trans hlen') hlist
  exact ⟨rfl, rfl, rfl⟩

end Moqt.Wire
