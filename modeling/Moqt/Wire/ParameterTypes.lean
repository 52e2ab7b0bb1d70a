import Moqt.Wire.Parameter

/-! Lists of message parameters as a sender writes them, of all ten types, and what the decoder
makes of them.  A parameter's type is coded as the difference to the type of the parameter in front
of it; the decoder takes the difference to the last parameter that it kept. -/

namespace Moqt.Wire

open Library

/-- A parameter of one of the ten types. -/
inductive Parameter where
  | deliveryTimeout (milliseconds : UInt64)
  | authorizationToken (token : Bytes)
  | rendezvousTimeout (milliseconds : UInt64)
  | expires (milliseconds : UInt64)
  | largestObject (group object : UInt64)
  | forward (value : UInt8)
  | subscriberPriority (value : UInt8)
  | subscriptionFilter (filter : SubscriptionFilter)
  | groupOrder (value : UInt8)
  | newGroupRequest (group : UInt64)
deriving DecidableEq, Repr

namespace Parameter

def typeId : Parameter → UInt64
  | .deliveryTimeout _ => PARAM_DELIVERY_TIMEOUT
  | .authorizationToken _ => PARAM_AUTHORIZATION_TOKEN
  | .rendezvousTimeout _ => PARAM_RENDEZVOUS_TIMEOUT
  | .expires _ => PARAM_EXPIRES
  | .largestObject _ _ => PARAM_LARGEST_OBJECT
  | .forward _ => PARAM_FORWARD
  | .subscriberPriority _ => PARAM_SUBSCRIBER_PRIORITY
  | .subscriptionFilter _ => PARAM_SUBSCRIPTION_FILTER
  | .groupOrder _ => PARAM_GROUP_ORDER
  | .newGroupRequest _ => PARAM_NEW_GROUP_REQUEST

/-- What the relay's `MessageParameter` has for it: three of the types are kept. -/
def kept : Parameter → Option MessageParameter
  | .largestObject group object => some (.largestObject group object)
  | .forward value => some (.forward value)
  | .subscriptionFilter filter => some (.subscriptionFilter filter)
  | _ => none

end Parameter

/-! ### Serializations -/

namespace SubscriptionFilter

/-- `payload` is the filter type followed by the fields of that type. -/
def Payload : SubscriptionFilter → Bytes → Prop
  | .nextGroupStart, payload => IsVarint 0x1 payload
  | .largestObject, payload => IsVarint 0x2 payload
  | .absoluteStart group object, payload => ∃ t g o, IsVarint 0x3 t ∧ IsVarint group g ∧
      IsVarint object o ∧ payload = t ++ (g ++ o)
  | .absoluteRange group object endGroupDelta, payload => ∃ t g o d, IsVarint 0x4 t ∧
      IsVarint group g ∧ IsVarint object o ∧ IsVarint endGroupDelta d ∧
      payload = t ++ (g ++ (o ++ d))

end SubscriptionFilter

/-- `b` is the value of the parameter in the encoding of its type. -/
def Parameter.Value : Parameter → Bytes → Prop
  | .deliveryTimeout v, b | .rendezvousTimeout v, b | .expires v, b | .newGroupRequest v, b =>
    IsVarint v b
  | .authorizationToken token, b => LengthPrefixed token b
  | .largestObject group object, b => ∃ g o, IsVarint group g ∧ IsVarint object o ∧ b = g ++ o
  | .forward v, b | .subscriberPriority v, b | .groupOrder v, b => b = [v]
  | .subscriptionFilter filter, b => ∃ payload, filter.Payload payload ∧ LengthPrefixed payload b

/-- The bytes of a list of parameters after a parameter of type `prev`.  The types cannot decrease,
since a difference is not negative. -/
inductive Serialized : UInt64 → List Parameter → Bytes → Prop
  | nil (prev : UInt64) : Serialized prev [] []
  | cons {prev delta : UInt64} {p : Parameter} {ps : List Parameter} {d v body : Bytes}
      (hdelta : IsVarint delta d) (htype : prev.toNat + delta.toNat = p.typeId.toNat)
      (hvalue : p.Value v) (hbody : Serialized p.typeId ps body) :
      Serialized prev (p :: ps) (d ++ (v ++ body))

/-- `b` is the count of the parameters followed by the parameters. -/
def SerializedParameters (ps : List Parameter) (b : Bytes) : Prop :=
  ∃ count n body, IsVarint count n ∧ count.toNat = ps.length ∧ Serialized 0 ps body ∧
    b = n ++ body

/-! ### The types that the decoder reads -/

/-- The absolute types that `count` iterations of the loop of `decode_parameters` read. -/
def ParameterLoop.typesFrom : ParameterLoop → (count : Nat) → Bytes → List UInt64
  | _, 0, _ => []
  | s, count + 1, b =>
    match (decodeParameter s.prevType b).outcome with
    | .ok read => read.1 :: (s.push read).typesFrom count (decodeParameter s.prevType b).rest
    | _ => []

/-- The absolute types that `decode_parameters` reads. -/
def typesRead (b : Bytes) : List UInt64 :=
  match (decodeVarint b).outcome with
  | .ok count =>
    ParameterLoop.typesFrom { params := [], prevType := 0 } count.toNat (decodeVarint b).rest
  | _ => []

theorem ParameterLoop.typesFrom_succ {s : ParameterLoop} {b rest : Bytes} (count : Nat)
    {read : UInt64 × Option MessageParameter}
    (h : (decodeParameter s.prevType).Returns b read rest) :
    s.typesFrom (count + 1) b = read.1 :: (s.push read).typesFrom count rest := by
  obtain ⟨hok, rfl⟩ := h
  rw [ParameterLoop.typesFrom, hok]

theorem typesRead_eq {b body : Bytes} {count : UInt64} (h : decodeVarint.Returns b count body) :
    typesRead b = ParameterLoop.typesFrom { params := [], prevType := 0 } count.toNat body := by
  obtain ⟨hok, rfl⟩ := h
  rw [typesRead, hok]

/-! ### Reading one parameter -/

theorem returns_decodeUInt8 (v : UInt8) (m : String) (rest : Bytes) :
    (decodeUInt8 m).Returns ([v] ++ rest) v rest := by
  simp [decodeUInt8]

/-- A filter's own bytes are read to their end, or, for the filters without fields, to the end of
the filter type. -/
theorem returns_filterPayload {filter : SubscriptionFilter} {payload : Bytes}
    (h : filter.Payload payload) : ∃ filterType left, decodeVarint.Returns payload filterType left ∧
      ∀ b, (decodeFilterFields filterType left).Returns b filter b := by
  cases filter with
  | nextGroupStart => exact ⟨0x1, [], h, fun b => ⟨rfl, rfl⟩⟩
  | largestObject => exact ⟨0x2, [], h, fun b => ⟨rfl, rfl⟩⟩
  | absoluteStart group object =>
    obtain ⟨t, g, o, ht, hg, ho, rfl⟩ := h
    refine ⟨0x3, g ++ o, ht.returns _, fun b => ?_⟩
    refine Decoder.returns_bind.mpr ⟨(group, o), b, ?_, Decoder.returns_bind.mpr
      ⟨(object, []), b, ?_, rfl, rfl⟩⟩
    · exact Decoder.returns_onSlice.mpr ⟨hg.returns _, rfl⟩
    · exact Decoder.returns_onSlice.mpr ⟨ho, rfl⟩
  | absoluteRange group object endGroupDelta =>
    obtain ⟨t, g, o, d, ht, hg, ho, hd, rfl⟩ := h
    refine ⟨0x4, g ++ (o ++ d), ht.returns _, fun b => ?_⟩
    refine Decoder.returns_bind.mpr ⟨(group, o ++ d), b, ?_, Decoder.returns_bind.mpr
      ⟨(object, d), b, ?_, Decoder.returns_bind.mpr ⟨(endGroupDelta, []), b, ?_, rfl, rfl⟩⟩⟩
    · exact Decoder.returns_onSlice.mpr ⟨hg.returns _, rfl⟩
    · exact Decoder.returns_onSlice.mpr ⟨ho.returns _, rfl⟩
    · exact Decoder.returns_onSlice.mpr ⟨hd, rfl⟩

theorem returns_decodeSubscriptionFilter {filter : SubscriptionFilter} {payload b : Bytes}
    (hp : filter.Payload payload) (hb : LengthPrefixed payload b) (rest : Bytes) :
    decodeSubscriptionFilter.Returns (b ++ rest) filter rest := by
  obtain ⟨len, hlen, hn⟩ := hb.returns rest
  obtain ⟨filterType, left, htype, hfields⟩ := returns_filterPayload hp
  simp only [decodeSubscriptionFilter, Decoder.returns_bind, Decoder.returns_ensureLen,
    Decoder.returns_slice, Decoder.returns_onSlice, Decoder.returns_advance]
  refine ⟨len, _, hlen, (), _, ⟨?_, rfl⟩, payload, _, ⟨?_, ?_, rfl⟩, (filterType, left), _,
    ⟨htype, rfl⟩, (), rest, ⟨?_, ?_⟩, hfields rest⟩
  all_goals simp [hn]

/-- The `match` on the type reads every parameter's value, and keeps it or skips it. -/
theorem returns_decodeParameterValue {p : Parameter} {v : Bytes} (h : p.Value v) (rest : Bytes) :
    (decodeParameterValue p.typeId).Returns (v ++ rest) p.kept rest := by
  cases p with
  | deliveryTimeout v | rendezvousTimeout v | expires v | newGroupRequest v =>
    exact Decoder.returns_bind.mpr ⟨_, rest, IsVarint.returns h rest, rfl, rfl⟩
  | authorizationToken token =>
    exact Decoder.returns_bind.mpr
      ⟨(), rest, returns_skipLengthPrefixed.mpr ⟨token, v, h, rfl⟩, rfl, rfl⟩
  | largestObject group object =>
    obtain ⟨g, o, hg, ho, rfl⟩ := h
    rw [List.append_assoc]
    exact Decoder.returns_bind.mpr ⟨group, o ++ rest, hg.returns _, Decoder.returns_bind.mpr
      ⟨object, rest, ho.returns rest, rfl, rfl⟩⟩
  | forward v | subscriberPriority v | groupOrder v =>
    obtain rfl := h
    exact Decoder.returns_bind.mpr ⟨v, rest, returns_decodeUInt8 v _ rest, rfl, rfl⟩
  | subscriptionFilter filter =>
    obtain ⟨payload, hp, hb⟩ := h
    exact Decoder.returns_bind.mpr
      ⟨filter, rest, returns_decodeSubscriptionFilter hp hb rest, rfl, rfl⟩

/-! ### Reading the list -/

theorem returns_decodeParameter {prev delta : UInt64} {p : Parameter} {d v : Bytes}
    (hdelta : IsVarint delta d) (htype : prev.toNat + delta.toNat = p.typeId.toNat)
    (hvalue : p.Value v) (rest : Bytes) :
    (decodeParameter prev).Returns (d ++ (v ++ rest)) (p.typeId, p.kept) rest := by
  have hfits := p.typeId.toNat_lt
  have hsum : prev + delta = p.typeId := by
    apply UInt64.toNat.inj
    rw [UInt64.toNat_add, htype, Nat.mod_eq_of_lt hfits]
  refine Decoder.returns_bind.mpr ⟨delta, v ++ rest, hdelta.returns _, Decoder.returns_bind.mpr
    ⟨p.typeId, v ++ rest, returns_checkedAdd.mpr ⟨by omega, hsum, rfl⟩, ?_⟩⟩
  exact Decoder.returns_bind.mpr
    ⟨p.kept, rest, returns_decodeParameterValue hvalue rest, rfl, rfl⟩

/-- After a type that a kept parameter or the start of the list left behind, a list in which only
the last parameter can be skipped is read as it was written. -/
theorem Serialized.read {prev : UInt64} {ps : List Parameter} {body : Bytes}
    (h : Serialized prev ps body) (hkept : ∀ p ∈ ps.dropLast, p.kept.isSome)
    (params : List MessageParameter) (done : Nat) (rest : Bytes) :
    (∃ s : ParameterLoop, s.params = params ++ ps.filterMap Parameter.kept ∧
      (Decoder.forCountFrom ParameterLoop.body done ps.length ⟨params, prev⟩).Returns
        (body ++ rest) s rest) ∧
    ParameterLoop.typesFrom ⟨params, prev⟩ ps.length (body ++ rest) = ps.map Parameter.typeId := by
  induction h generalizing params done with
  | nil prev => exact ⟨⟨⟨params, prev⟩, by simp, by simp⟩, rfl⟩
  | @cons prev delta p ps d v body hdelta htype hvalue hbody ih =>
    have hread := returns_decodeParameter hdelta htype hvalue (body ++ rest)
    have hpush : ∀ value, p.kept = value →
        (ParameterLoop.body ⟨params, prev⟩).Returns (d ++ (v ++ (body ++ rest)))
          (ParameterLoop.push ⟨params, prev⟩ (p.typeId, value)) (body ++ rest) := by
      rintro value rfl
      exact Decoder.returns_bind.mpr ⟨_, _, hread, rfl, rfl⟩
    simp only [List.append_assoc, List.length_cons, Decoder.returns_forCountFrom_succ,
      List.map_cons]
    rw [ParameterLoop.typesFrom_succ (s := ⟨params, prev⟩) ps.length hread]
    cases hk : p.kept with
    | some param =>
      have hrest : ∀ q ∈ ps.dropLast, q.kept.isSome := by
        intro q hq
        cases ps with
        | nil => simp at hq
        | cons r rs => exact hkept q (List.mem_cons_of_mem _ hq)
      obtain ⟨⟨s, hs, hloop⟩, htypes⟩ := ih hrest (params ++ [param]) (done + 1)
      refine ⟨⟨s, ?_, _, _, hpush _ hk, hloop⟩, congrArg _ htypes⟩
      rw [hs, List.filterMap_cons_some hk, List.append_assoc, List.singleton_append]
    | none =>
      -- a skipped parameter is the last one
      have hlast : ps = [] := by
        cases ps with
        | nil => rfl
        | cons r rs => simpa [hk] using hkept p List.mem_cons_self
      subst hlast
      cases hbody
      exact ⟨⟨⟨params, prev⟩, by simp [hk], _, _, hpush _ hk, by simp [ParameterLoop.push]⟩, rfl⟩

theorem typeId_ne_zero (p : Parameter) : p.typeId ≠ 0 := by
  cases p <;> simp only [Parameter.typeId] <;> decide

/-- Whether a parameter is kept depends on its type alone. -/
theorem kept_isSome_iff (p : Parameter) : p.kept.isSome = true ↔
    p.typeId ∈ [PARAM_LARGEST_OBJECT, PARAM_FORWARD, PARAM_SUBSCRIPTION_FILTER] := by
  cases p <;> simp only [Parameter.typeId, Parameter.kept, Option.isSome_some,
    Option.isSome_none] <;> decide

theorem typeId_ne_of_kept {p q : Parameter} (hp : p.kept.isSome) (hq : q.kept = none) :
    p.typeId ≠ q.typeId := by
  intro heq
  rw [kept_isSome_iff, heq, ← kept_isSome_iff, hq] at hp
  exact Bool.false_ne_true hp

/-- A parameter after a skipped one is not read with the type that it was written with. -/
theorem typesFrom_after_skipped {prev : UInt64} {p q : Parameter} {qs : List Parameter}
    {body : Bytes} (hprev : prev ≠ p.typeId) (h : Serialized p.typeId (q :: qs) body)
    (params : List MessageParameter) (rest : Bytes) :
    ParameterLoop.typesFrom ⟨params, prev⟩ (qs.length + 1) (body ++ rest) ≠
      (q :: qs).map Parameter.typeId := by
  intro htypes
  obtain ⟨⟩ | @⟨_, delta, _, _, d, v, body, hdelta, htype, -, -⟩ := h
  simp only [ParameterLoop.typesFrom, List.map_cons] at htypes
  split at htypes
  next read hok =>
    have hread : (decodeParameter prev).Returns (d ++ (v ++ body) ++ rest) read _ := ⟨hok, rfl⟩
    simp only [decodeParameter, Decoder.returns_bind, returns_checkedAdd,
      Decoder.returns_pure] at hread
    obtain ⟨delta', mid, hdelta', typeId, _, ⟨hfits, hsum, rfl⟩, value, last, -, hpair, -⟩ := hread
    rw [List.append_assoc] at hdelta'
    obtain ⟨rfl, rfl⟩ := (hdelta.returns _).unique hdelta'
    have htypeId : typeId = q.typeId := by
      rw [← (List.cons.inj htypes).1, ← hpair]
    refine hprev (UInt64.toNat.inj ?_)
    have hvalue : prev.toNat + delta.toNat = q.typeId.toNat := by
      rw [← htypeId, ← hsum, UInt64.toNat_add, Nat.mod_eq_of_lt hfits]
    omega
  next => simp at htypes

theorem Serialized.kept_of_typesFrom {prev : UInt64} {ps : List Parameter} {body : Bytes}
    (h : Serialized prev ps body) (hprev : ∀ p : Parameter, p.kept = none → prev ≠ p.typeId)
    {params : List MessageParameter} {rest : Bytes}
    (htypes : ParameterLoop.typesFrom ⟨params, prev⟩ ps.length (body ++ rest) =
      ps.map Parameter.typeId) : ∀ p ∈ ps.dropLast, p.kept.isSome := by
  induction h generalizing params with
  | nil prev => simp
  | @cons prev delta p ps d v body hdelta htype hvalue hbody ih =>
    have hread := returns_decodeParameter hdelta htype hvalue (body ++ rest)
    simp only [List.append_assoc, List.length_cons] at htypes
    rw [ParameterLoop.typesFrom_succ (s := ⟨params, prev⟩) ps.length hread,
      List.map_cons] at htypes
    have htail := (List.cons.inj htypes).2
    cases ps with
    | nil => simp
    | cons q qs =>
      cases hk : p.kept with
      | some param =>
        rw [hk] at htail
        have hsome : p.kept.isSome := by simp [hk]
        have hrest := ih (fun r hr => typeId_ne_of_kept hsome hr) htail
        intro r hr
        rcases List.mem_cons.mp hr with rfl | hr
        · exact hsome
        · exact hrest r hr
      | none =>
        rw [hk] at htail
        exact absurd htail (typesFrom_after_skipped (hprev p hk) hbody params rest)

/-- A serialized list is decoded to its kept parameters, with the types that it was written with,
exactly when no skipped parameter stands before its last place and a vector can hold it. -/
theorem decodeParameters_iff {ps : List Parameter} {b : Bytes} (h : SerializedParameters ps b)
    (rest : Bytes) :
    (decodeParameters.Returns (b ++ rest) (ps.filterMap Parameter.kept) rest ∧
      typesRead (b ++ rest) = ps.map Parameter.typeId) ↔
    (∀ p ∈ ps.dropLast, p.kept.isSome) ∧ ps.length * sizeOfMessageParameter ≤ isizeMax := by
  obtain ⟨count, n, body, hcount, hlen, hbody, rfl⟩ := h
  have hn := hcount.returns (body ++ rest)
  rw [List.append_assoc, typesRead_eq hn, hlen]
  constructor
  · rintro ⟨hreturns, htypes⟩
    refine ⟨hbody.kept_of_typesFrom (fun p _ => (typeId_ne_zero p).symm) htypes, ?_⟩
    simp only [decodeParameters, Decoder.returns_bind, Decoder.returns_withCapacity] at hreturns
    obtain ⟨count', mid, hn', -, _, ⟨hcapacity, rfl⟩, -⟩ := hreturns
    obtain ⟨rfl, -⟩ := hn.unique hn'
    rw [hlen] at hcapacity
    exact hcapacity
  · rintro ⟨hkept, hcapacity⟩
    obtain ⟨⟨s, hs, hloop⟩, htypes⟩ := hbody.read hkept [] 0 rest
    refine ⟨?_, htypes⟩
    rw [← hlen] at hloop hcapacity
    simp only [decodeParameters, Decoder.returns_bind, Decoder.returns_withCapacity,
      Decoder.returns_pure, Decoder.forCount]
    exact ⟨count, _, hn, (), _, ⟨hcapacity, rfl⟩, s, rest, hloop, by simpa using hs, rfl⟩

/-- SUBSCRIBER_PRIORITY 128 followed by SUBSCRIPTION_FILTER NextGroupStart. -/
def priorityThenFilter : List Parameter :=
  [.subscriberPriority 128, .subscriptionFilter .nextGroupStart]

theorem serialized_priorityThenFilter :
    SerializedParameters priorityThenFilter [2, 0x20, 0x80, 0x01, 0x01, 0x01] := by
  refine ⟨2, [2], [0x20, 0x80, 0x01, 0x01, 0x01], by decide, rfl, ?_, rfl⟩
  refine .cons (d := [0x20]) (v := [0x80]) (show IsVarint 0x20 _ by decide) rfl rfl ?_
  refine .cons (d := [0x01]) (v := [0x01, 0x01]) (show IsVarint 0x01 _ by decide) rfl ?_ (.nil _)
  exact ⟨[0x01], show IsVarint _ _ by decide, 1, [0x01], by decide, rfl, rfl⟩

/-- The filter is read as a parameter of type 0x1, which there is not. -/
theorem decodeParameters_priorityThenFilter :
    ¬∀ ps b rest, SerializedParameters ps b →
      decodeParameters.Returns (b ++ rest) (ps.filterMap Parameter.kept) rest := by
  intro h
  have hreturns := h _ _ [] serialized_priorityThenFilter
  revert hreturns
  decide

/-- FORWARD 1 followed by SUBSCRIBER_PRIORITY 128. -/
theorem decodeParameters_forwardThenPriority :
    decodeParameters.Returns ([2, 0x10, 0x01, 0x10, 0x80] ++ [0xff]) [.forward 1] [0xff] := by
  have h : SerializedParameters [.forward 1, .subscriberPriority 128]
      [2, 0x10, 0x01, 0x10, 0x80] := by
    refine ⟨2, [2], [0x10, 0x01, 0x10, 0x80], by decide, rfl, ?_, rfl⟩
    refine .cons (d := [0x10]) (v := [0x01]) (show IsVarint 0x10 _ by decide) rfl rfl ?_
    exact .cons (d := [0x10]) (v := [0x80]) (show IsVarint 0x10 _ by decide) rfl rfl (.nil _)
  exact ((decodeParameters_iff h [0xff]).mpr (by decide)).1

end Moqt.Wire
