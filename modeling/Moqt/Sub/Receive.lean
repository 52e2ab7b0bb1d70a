import Moqt.Relay.Reading
import Moqt.Wire.Accepted
import Moqt.Wire.DataStreamReader
import Moqt.Sub.Pipe

/-! The streams that arrive at the subscriber, and what its receive task reads of them.  Of a stream
that was cut off it takes the objects that have come whole. -/

namespace Moqt.Sub

open Library Wire Relay

/-- The loop over the objects of a group: the payloads, and whether the task goes on behind it.  No
more than `fuel` objects are read. -/
def readGroupFrom (hasProperties : Bool) : (fuel : Nat) → ByteStream → List Bytes × Bool
  | 0, _ => ([], true)
  | fuel + 1, s =>
    match readObject hasProperties s with
    | .ok (some (_, payload, _), s) =>
      let (payloads, goesOn) := readGroupFrom hasProperties fuel s
      (payload :: payloads, goesOn)
    | .ok (none, _) => ([], true)
    | .error e => ([], !e.isPanic)

/-- Every object takes a byte, so that there is fuel for all of them. -/
def readGroup (hasProperties : Bool) (body : ByteStream) : List Bytes × Bool :=
  readGroupFrom hasProperties body.bytes.length body

/-- A stream that the peer has opened. -/
inductive Arrival where
  | uni (content : ByteStream)
  | bi (content : ByteStream)
deriving DecidableEq, Repr

/-- The data streams among the arrivals. -/
def Arrival.content : Arrival → Option ByteStream
  | .uni content => some content
  | .bi _ => none

/-- What `next_event` returns, up to the end of the receive task: it leaves its loop at the first
error, and ends with a panic. -/
def receive : List Arrival → List SessionEvent
  | [] => []
  | .uni content :: arrivals =>
    match readSubgroupHeader content with
    | .ok ((header, _), body) =>
      let (payloads, goesOn) := readGroup header.hasProperties body
      .dataStream payloads :: if goesOn then receive arrivals else []
    | .error _ => []
  | .bi content :: arrivals =>
    match requestEvent content with
    | .ok _ => .other :: receive arrivals
    | .error _ => []

/-! ### Objects -/

/-- How the loop over the objects ends, at `rest`. -/
inductive GroupEnd (hasProperties : Bool) (rest : ByteStream) : (goesOn : Bool) → Prop
  | finished {t : ByteStream} (h : (readObject hasProperties).Returns rest none t) :
    GroupEnd hasProperties rest true
  | failed {e : Failure} (h : (readObject hasProperties).Fails rest e) :
    GroupEnd hasProperties rest (!e.isPanic)

theorem readObject_nil (hasProperties : Bool) {s : ByteStream} (h : s.bytes = []) :
    ∃ t, (readObject hasProperties).Returns s none t :=
  returns_readObject_none.mpr (by rw [h]; rfl)

/-- The loop reads objects from the front, up to where there is none. -/
theorem readGroupFrom_spec (hasProperties : Bool) {fuel : Nat} {s : ByteStream}
    (hfuel : s.bytes.length ≤ fuel) : ∃ (objects : List RawObject) (rest : ByteStream),
      (∀ o ∈ objects, o.Framed hasProperties) ∧ s.Splits (objects.flatMap RawObject.bytes) rest ∧
      (readGroupFrom hasProperties fuel s).1 = objects.map RawObject.payload ∧
      GroupEnd hasProperties rest (readGroupFrom hasProperties fuel s).2 := by
  induction fuel generalizing s with
  | zero =>
    have hnil : s.bytes = [] := List.eq_nil_of_length_eq_zero (Nat.le_zero.mp hfuel)
    obtain ⟨t, hnone⟩ := readObject_nil hasProperties hnil
    exact ⟨[], s, by simp, .refl s, rfl, .finished hnone⟩
  | succ fuel ih =>
    rw [readGroupFrom]
    split
    next header payload raw t hread =>
      obtain ⟨hformat, hlength, hsplit⟩ := returns_readObject.mp hread
      have hframed : RawObject.Framed hasProperties ⟨raw, payload⟩ := ⟨header, hformat, hlength⟩
      have hlt : t.bytes.length < s.bytes.length := by
        have hpos := List.length_pos_iff.mpr hframed.bytes_ne_nil
        rw [hsplit.1, List.length_append]
        simp only [RawObject.bytes] at hpos
        omega
      obtain ⟨objects, rest, hobjects, hrest, hpayloads, hend⟩ := ih (s := t) (by omega)
      refine ⟨⟨raw, payload⟩ :: objects, rest, List.forall_mem_cons.mpr ⟨hframed, hobjects⟩, ?_,
        ?_, hend⟩
      · rw [List.flatMap_cons]
        exact hsplit.trans hrest
      · rw [List.map_cons, ← hpayloads]
    next t hnone => exact ⟨[], s, by simp, .refl s, rfl, .finished hnone⟩
    next e hfails => exact ⟨[], s, by simp, .refl s, rfl, .failed hfails⟩

/-! ### Streams that are cut off -/

/-- The first object of some bytes is known from the bytes. -/
theorem framed_unique {hasProperties : Bool} {o o' : RawObject} {r r' : Bytes}
    (h : o.Framed hasProperties) (h' : o'.Framed hasProperties)
    (heq : o.bytes ++ r = o'.bytes ++ r') : o = o' ∧ r = r' := by
  obtain ⟨header, hformat, hlength⟩ := h
  obtain ⟨header', hformat', hlength'⟩ := h'
  simp only [RawObject.bytes, List.append_assoc] at heq
  have hdecode := ObjectHeader.returns_decode.mpr ⟨_, hformat, heq.symm⟩
  obtain ⟨rfl, hrest⟩ := hdecode.unique (ObjectHeader.returns_decode.mpr ⟨_, hformat', rfl⟩)
  obtain ⟨hpayload, rfl⟩ := List.append_inj hrest (hlength.trans hlength'.symm)
  rw [hpayload] at heq
  cases o
  cases o'
  exact ⟨congr (congrArg RawObject.mk (List.append_cancel_right heq)) hpayload, rfl⟩

/-- Objects that are in front of some bytes are the first of the objects that the bytes are. -/
theorem objects_of_append {hasProperties : Bool} {taken objects : List RawObject} {rest : Bytes}
    (htaken : ∀ o ∈ taken, o.Framed hasProperties)
    (hobjects : ∀ o ∈ objects, o.Framed hasProperties)
    (h : taken.flatMap RawObject.bytes ++ rest = objects.flatMap RawObject.bytes) :
    ∃ more, objects = taken ++ more ∧ rest = more.flatMap RawObject.bytes := by
  induction taken generalizing objects with
  | nil => exact ⟨objects, rfl, h⟩
  | cons o taken ih =>
    rw [List.forall_mem_cons] at htaken
    rw [List.flatMap_cons, List.append_assoc] at h
    cases objects with
    | nil => exact absurd (List.append_eq_nil_iff.mp h).1 htaken.1.bytes_ne_nil
    | cons o' objects =>
      rw [List.forall_mem_cons] at hobjects
      rw [List.flatMap_cons] at h
      obtain ⟨rfl, hbehind⟩ := framed_unique htaken.1 hobjects.1 h
      obtain ⟨more, rfl, hrest⟩ := ih htaken.2 hobjects.2 hbehind
      exact ⟨more, rfl, hrest⟩

/-- Where a length is read, the bytes behind it do not make it larger. -/
theorem not_exceeds {d : Decoder UInt64} {b r : Bytes} {n : UInt64} (h : d.Returns b n r)
    (hn : n.toNat ≤ isizeMax) : exceeds d b = false := by
  rw [Bool.eq_false_iff]
  intro hlarge
  obtain ⟨m, r', hreturns, hm⟩ := exceeds_iff.mp hlarge
  rw [(h.unique hreturns).1] at hn
  omega

theorem exceeds_append {d : Decoder UInt64} (hd : d.Local) {b : Bytes} (c : Bytes)
    (h : exceeds d b = true) : exceeds d (b ++ c) = true := by
  obtain ⟨n, r, hreturns, hlarge⟩ := exceeds_iff.mp h
  exact exceeds_iff.mpr ⟨n, r ++ c, hd _ _ _ c hreturns, hlarge⟩

theorem decodeVarint_append : decodeVarint.Local := by
  intro b v r c h
  obtain ⟨w, hw, rfl⟩ := returns_decodeVarint_iff.mp h
  exact returns_decodeVarint_iff.mpr ⟨w, hw, List.append_assoc w r c⟩

/-- More bytes behind an object make it no smaller. -/
theorem oversized_append {hasProperties : Bool} {b : Bytes} (c : Bytes)
    (h : oversized hasProperties b = true) : oversized hasProperties (b ++ c) = true := by
  simp only [oversized, Bool.or_eq_true, Bool.and_eq_true] at h ⊢
  refine h.imp (exceeds_append ?_ c) (And.imp_right (exceeds_append ?_ c))
  · intro b n r c hreturns
    obtain ⟨header, hdecode, rfl⟩ := Decoder.returns_map.mp hreturns
    obtain ⟨raw, hformat, rfl⟩ := ObjectHeader.returns_decode.mp hdecode
    exact Decoder.returns_map.mpr ⟨header, ObjectHeader.returns_decode.mpr
      ⟨raw, hformat, List.append_assoc raw r c⟩, rfl⟩
  · exact decodeVarint_append.bind fun _ => decodeVarint_append.bind fun _ => decodeVarint_append

/-- An object that fits into a stream declares no more bytes than that. -/
theorem not_oversized_of_framed {hasProperties : Bool} {o : RawObject}
    (h : o.Framed hasProperties) (hfits : o.bytes.length < 2 ^ 62) (r : Bytes) :
    oversized hasProperties (o.bytes ++ r) = false := by
  obtain ⟨headerBytes, payload⟩ := o
  obtain ⟨header, hformat, hlength⟩ := h
  have hmax : 2 ^ 62 ≤ isizeMax := by decide
  simp only [RawObject.bytes, List.length_append] at hfits
  rw [oversized, Bool.or_eq_false_iff, Bool.and_eq_false_imp]
  constructor
  · have hdecode := ObjectHeader.returns_decode.mpr
      ⟨headerBytes, hformat, List.append_assoc headerBytes payload r⟩
    refine not_exceeds (Decoder.returns_map.mpr ⟨header, hdecode, rfl⟩) ?_
    change payload.length = _ at hlength
    omega
  · intro hproperties
    subst hproperties
    cases hformat with
    | mk deltaField lengthField propertiesField =>
      obtain ⟨props, length, lengthBytes, hfield, hprops, rfl⟩ := propertiesField
      refine not_exceeds (n := length) (r := props ++ (payload ++ r)) ?_ ?_
      · simp only [propertiesLength, Decoder.returns_bind, returns_decodeVarint_iff]
        exact ⟨_, _, ⟨_, deltaField, by simp [RawObject.bytes]⟩, _, _, ⟨_, lengthField, rfl⟩, _,
          hfield, rfl⟩
      · simp only [List.length_append, List.append_eq] at hfits
        omega

theorem not_oversized_of_objects {hasProperties : Bool} {objects : List RawObject}
    (hobjects : ∀ o ∈ objects, o.Framed hasProperties)
    (hfits : ∀ o ∈ objects, o.bytes.length < 2 ^ 62) :
    oversized hasProperties (objects.flatMap RawObject.bytes) = false := by
  cases objects with
  | nil => exact DataStreamReader.oversized_nil hasProperties
  | cons o objects =>
    rw [List.flatMap_cons]
    exact not_oversized_of_framed (hobjects o List.mem_cons_self) (hfits o List.mem_cons_self) _

/-- Of a front of a list of objects, the loop reads some of the objects, in order, and the task
goes on. -/
theorem readGroup_front {hasProperties : Bool} {objects : List RawObject} {body : ByteStream}
    (hobjects : ∀ o ∈ objects, o.Framed hasProperties)
    (hfits : ∀ o ∈ objects, o.bytes.length < 2 ^ 62)
    (hbody : body.bytes <+: objects.flatMap RawObject.bytes) :
    (∃ taken, taken <+: objects ∧ (readGroup hasProperties body).1 = taken.map RawObject.payload) ∧
      (readGroup hasProperties body).2 = true := by
  obtain ⟨taken, rest, htaken, hsplit, hpayloads, hend⟩ :=
    readGroupFrom_spec hasProperties (Nat.le_refl body.bytes.length)
  obtain ⟨cut, hcut⟩ := hbody
  rw [hsplit.1, List.append_assoc] at hcut
  obtain ⟨more, rfl, hmore⟩ := objects_of_append htaken hobjects hcut
  refine ⟨⟨taken, List.prefix_append taken more, hpayloads⟩, ?_⟩
  unfold readGroup
  generalize (readGroupFrom hasProperties body.bytes.length body).2 = goesOn at hend
  cases hend with
  | finished hnone => rfl
  | failed hfails =>
    rename_i e
    cases e with
    | panic m =>
      -- the lengths that are declared here are those of objects of the whole stream
      have hlarge := oversized_append cut (panics_readObject_iff.mp ⟨m, hfails⟩)
      rw [hmore, not_oversized_of_objects (fun o ho => hobjects o (by simp [ho]))
        (fun o ho => hfits o (by simp [ho]))] at hlarge
      cases hlarge
    | readExact x => rfl
    | error m => rfl

/-- Of a whole list of objects, the loop reads every one. -/
theorem readGroup_whole {hasProperties : Bool} {objects : List RawObject} {body : ByteStream}
    (hobjects : ∀ o ∈ objects, o.Framed hasProperties)
    (hfits : ∀ o ∈ objects, o.bytes.length < 2 ^ 62)
    (hbody : body.bytes = objects.flatMap RawObject.bytes) :
    readGroup hasProperties body = (objects.map RawObject.payload, true) := by
  obtain ⟨taken, rest, htaken, hsplit, hpayloads, hend⟩ :=
    readGroupFrom_spec hasProperties (Nat.le_refl body.bytes.length)
  have hgoesOn : (readGroup hasProperties body).2 = true :=
    (readGroup_front hobjects hfits ⟨[], by rw [List.append_nil, hbody]⟩).2
  obtain ⟨more, rfl, hmore⟩ := RawObject.eq_append_of_splits htaken hobjects hsplit hbody
  have hall : more = [] := by
    cases more with
    | nil => rfl
    | cons o more =>
      -- the next object would have been read
      obtain ⟨rest', hnext, -⟩ := ByteStream.exists_splits hmore
      obtain ⟨header, hreturns⟩ := (hobjects o (by simp)).returns hnext
      generalize (readGroupFrom hasProperties body.bytes.length body).2 = goesOn at hend
      cases hend with
      | finished hnone => cases (hreturns.unique hnone).1
      | failed hfails => exact absurd hfails hreturns.not_fails
  rw [hall, List.append_nil]
  exact Prod.ext hpayloads hgoesOn

/-! ### Groups -/

/-- A whole data stream: a header, and objects in the format that the header says, each of which
fits into a stream. -/
structure Group where
  header : SubgroupHeader
  objects : List RawObject
  framed : ∀ o ∈ objects, o.Framed header.hasProperties
  fits : ∀ o ∈ objects, o.bytes.length < 2 ^ 62

namespace Group

instance : Inhabited Group := ⟨⟨⟨0, 0, false, false, none, none⟩, [], by simp, by simp⟩⟩

def bytes (group : Group) : Bytes := group.header.encode ++ group.objects.flatMap RawObject.bytes

def payloads (group : Group) : List Bytes := group.objects.map RawObject.payload

/-- What the header of a front is read as, if there is one. -/
theorem header_of_front {group : Group} {content body : ByteStream} {header : SubgroupHeader}
    {raw : Bytes} (hfront : content.bytes <+: group.bytes)
    (hread : readSubgroupHeader.Returns content (header, raw) body) :
    header = group.header ∧ raw = group.header.encode ∧
      body.bytes <+: group.objects.flatMap RawObject.bytes := by
  obtain ⟨⟨streamType, hformat⟩, hsplit⟩ := returns_readSubgroupHeader.mp hread
  obtain ⟨cut, hcut⟩ := hfront
  rw [hsplit.1, List.append_assoc] at hcut
  have hdecode : SubgroupHeader.decode.Returns (raw ++ (body.bytes ++ cut)) header
      (body.bytes ++ cut) := SubgroupHeader.returns_decode.mpr ⟨streamType, raw, hformat, rfl⟩
  rw [hcut] at hdecode
  obtain ⟨rfl, hrest⟩ :=
    hdecode.unique (SubgroupHeader.decode_encode group.header (group.objects.flatMap _))
  refine ⟨rfl, ?_, cut, hrest⟩
  rw [hrest] at hcut
  exact List.append_cancel_right hcut

end Group

/-- The streams are fronts of groups, in the same order. -/
def Fronts (contents : List ByteStream) (groups : List Group) : Prop :=
  List.Forall₂ (fun content group => content.bytes <+: group.bytes) contents groups

theorem fronts_nil (groups : List Group) : List.Forall₂
    (fun group front => front <+: group.payloads) groups (List.replicate groups.length []) := by
  rw [List.forall₂_iff_get]
  exact ⟨List.length_replicate.symm, fun i h₁ h₂ => by simp⟩

/-- Of fronts of groups, the task reads fronts of their payloads, whatever the way in which the
streams end, and whatever arrives between them. -/
theorem receive_fronts {arrivals : List Arrival} {groups : List Group}
    (h : Fronts (arrivals.filterMap Arrival.content) groups) : ∃ fronts : List (List Bytes),
      List.Forall₂ (fun group front => front <+: group.payloads) groups fronts ∧
      (receive arrivals).flatMap SessionEvent.payloads = fronts.flatten := by
  -- at an error the task leaves its loop: nothing is read of what is behind it
  have hleft (groups : List Group) : ∃ fronts : List (List Bytes),
      List.Forall₂ (fun group front => front <+: group.payloads) groups fronts ∧
      ([] : List SessionEvent).flatMap SessionEvent.payloads = fronts.flatten :=
    ⟨List.replicate groups.length [], fronts_nil groups, by simp⟩
  induction arrivals generalizing groups with
  | nil =>
    cases h
    exact ⟨[], .nil, rfl⟩
  | cons arrival arrivals ih =>
    cases arrival with
    | uni content =>
      have hcontent : Arrival.content (.uni content) = some content := rfl
      rw [List.filterMap_cons_some hcontent] at h
      cases h with
      | @cons content group contents groups hfront hrest =>
        rw [receive]
        split
        next header raw body hread =>
          obtain ⟨rfl, -, hbody⟩ := Group.header_of_front hfront hread
          obtain ⟨⟨taken, htaken, hgroup⟩, hgoesOn⟩ :=
            readGroup_front group.framed group.fits hbody
          obtain ⟨fronts, hfronts, hpayloads⟩ := ih hrest
          refine ⟨taken.map RawObject.payload :: fronts, .cons (htaken.map _) hfronts, ?_⟩
          simp only [hgoesOn, if_true, List.flatMap_cons, hpayloads, SessionEvent.payloads, hgroup,
            List.flatten_cons]
        next e hfails => exact hleft (group :: groups)
    | bi content =>
      have hcontent : Arrival.content (.bi content) = none := rfl
      rw [List.filterMap_cons_none hcontent] at h
      rw [receive]
      split
      next event hread => exact ih h
      next e hfails => exact hleft groups

/-- Whole groups are read whole. -/
theorem receive_whole {contents : List ByteStream} {groups : List Group}
    (h : List.Forall₂ (fun content group => content.bytes = group.bytes) contents groups) :
    receive (contents.map .uni) = groups.map fun group => .dataStream group.payloads := by
  induction h with
  | nil => rfl
  | @cons content group contents groups hcontent hrest ih =>
    obtain ⟨body, hsplit, hbody⟩ := ByteStream.exists_splits hcontent
    have hread : readSubgroupHeader.Returns content (group.header, group.header.encode) body :=
      returns_readSubgroupHeader.mpr
        ⟨⟨_, (SubgroupHeader.format_encode group.header).mono fun _ _ h => h.1⟩, hsplit⟩
    have hgroup := readGroup_whole group.framed group.fits hbody
    rw [List.map_cons, receive, show readSubgroupHeader content = _ from hread]
    simp only [hgroup, if_true, ih, List.map_cons, Group.payloads]

end Moqt.Sub
