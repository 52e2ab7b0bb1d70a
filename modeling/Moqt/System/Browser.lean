import Moqt.System.Video
import Moqt.Web.Publisher
import Moqt.Web.Subscriber

/-! The pages of the browser client at either end of the relay.  What the publisher page sends is a
video as that of moqt-pub is; of any video that the relay is sent, the subscriber page passes to its
decoder the first chunks of some groups, in the order of the groups. -/

namespace Moqt.System

open Library Moqt.Wire Moqt.Relay Moqt.Pub Moqt.Sub
open Web (GroupStream Publisher publisher Subscriber subscriber GroupCall groupsOf asChunks)

/-! ### Headers and objects as the browser writes and reads them -/

theorem encodeVarint_toNat {v : UInt64} (h : v.toNat < 2 ^ 42) :
    Web.encodeVarint v.toNat = encodeVarint v := by
  rw [(Web.encodeVarint_of_lt h).1]
  exact congrArg encodeVarint (UInt64.ofNat_toNat)

/-- The fields of a header are small enough for the codec of the browser. -/
structure SmallHeader (header : SubgroupHeader) : Prop where
  trackAlias : header.trackAlias.toNat < 2 ^ 42
  groupId : header.groupId.toNat < 2 ^ 42
  subgroupId : ∀ id ∈ header.subgroupId, id.toNat < 2 ^ 42

theorem typeByte_ofRelay (header : SubgroupHeader) :
    Web.typeByte (.ofRelay header) = header.typeByte.toNat := by
  obtain ⟨trackAlias, groupId, hasProperties, endOfGroup, subgroupId, publisherPriority⟩ := header
  cases hasProperties <;> cases endOfGroup <;> cases subgroupId <;> cases publisherPriority <;> rfl

theorem lt_of_typeByte (header : SubgroupHeader) : header.typeByte.toNat < 2 ^ 6 := by
  obtain ⟨trackAlias, groupId, hasProperties, endOfGroup, subgroupId, publisherPriority⟩ := header
  cases hasProperties <;> cases endOfGroup <;> cases subgroupId <;> cases publisherPriority <;>
    simp [SubgroupHeader.typeByte]

/-- The two encoders write such a header alike. -/
theorem encodeSubgroupHeader_ofRelay {header : SubgroupHeader} (h : SmallHeader header) :
    Web.encodeSubgroupHeader (.ofRelay header) = header.encode := by
  have htype : header.typeByte.toNat < 2 ^ 42 := by
    have hlt := lt_of_typeByte header
    omega
  rw [Web.encodeSubgroupHeader, typeByte_ofRelay, encodeVarint_toNat htype, SubgroupHeader.encode]
  obtain ⟨trackAlias, groupId, hasProperties, endOfGroup, subgroupId, publisherPriority⟩ := header
  have hid := h.subgroupId
  simp only [Web.SubgroupHeader.ofRelay, encodeVarint_toNat h.trackAlias,
    encodeVarint_toNat h.groupId]
  cases subgroupId <;> cases publisherPriority <;> simp_all [encodeVarint_toNat]

theorem groupHeader_eq {g : Nat} (h : g < 2 ^ 42) :
    Web.groupHeader g = (subgroupHeader 1 g.toUInt64 0).encode := by
  have hid : g.toUInt64.toNat = g := Nat.mod_eq_of_lt (by omega)
  have hsmall : SmallHeader (subgroupHeader 1 g.toUInt64 0) :=
    ⟨by simp [subgroupHeader], lt_of_eq_of_lt hid h, by simp [subgroupHeader]⟩
  rw [← encodeSubgroupHeader_ofRelay hsmall, Web.groupHeader]
  simp [Web.SubgroupHeader.ofRelay, subgroupHeader, hid]

theorem groupObject_eq {payload : Bytes} (h : payload.length < 2 ^ 42) :
    Web.groupObject payload = objectBytes (objectHeader payload) payload := by
  have hdelta : Web.encodeVarint 0 = encodeVarint 0 := (Web.encodeVarint_of_lt (by decide)).1
  have hlength := (Web.encodeVarint_of_lt h).1
  show Web.encodeVarint 0 ++ Web.encodeVarint payload.length ++ payload = _
  rw [hdelta, hlength]
  rfl

theorem isObject_groupObject {payload : Bytes} (h : payload.length < 2 ^ 42) :
    Web.IsObject payload (Web.groupObject payload) := by
  obtain ⟨-, hdelta, -⟩ := Web.encodeVarint_of_lt (n := 0) (by decide)
  obtain ⟨-, hlen, hnumber⟩ := Web.encodeVarint_of_lt h
  exact ⟨_, _, hdelta, hlen, hnumber, List.append_assoc _ _ _⟩

/-- The browser reads the header of a group as it has been written. -/
theorem isHeader_groupHeader {g : Nat} (h : g < 2 ^ 42) : ∃ header : Web.SubgroupHeader,
    header.groupId = g ∧ Web.IsHeader header (Web.groupHeader g) := by
  obtain ⟨-, htype, htypeNumber⟩ := Web.encodeVarint_of_lt (n := 0x3c) (by decide)
  obtain ⟨-, halias, -⟩ := Web.encodeVarint_of_lt (n := 1) (by decide)
  obtain ⟨-, hgroup, hgroupNumber⟩ := Web.encodeVarint_of_lt h
  obtain ⟨-, hid, -⟩ := Web.encodeVarint_of_lt (n := 0) (by decide)
  have hheader := @Web.IsHeader.mk _ _ _ (some (Web.encodeVarint 0)) none htype halias hgroup
    (by simpa using hid) (by rw [htypeNumber]; rfl) (by rw [htypeNumber]; rfl)
  have htypeByte : Web.typeByte ⟨1, g, false, true, some 0, none⟩ = 0x3c := by
    simp [Web.typeByte]
  rw [Web.groupHeader, Web.encodeSubgroupHeader, htypeByte]
  refine ⟨_, ?_, hheader⟩
  exact hgroupNumber

/-! ### The publisher page -/

/-- The bytes that a call on the writer of a stream writes. -/
def writtenBy : Web.WriterCall → Bytes
  | .write buf => buf
  | .close => []

/-- The bytes of a stream of the page: the writer takes nothing behind `close`. -/
def streamBytes (stream : GroupStream) : Bytes :=
  (stream.calls.takeWhile (· ≠ .close)).flatMap writtenBy

theorem streamBytes_of_carries {stream : GroupStream} {chunks : List Web.EncodedVideoChunk}
    (h : stream.Carries chunks) : streamBytes stream = Web.groupHeader stream.groupId ++
      chunks.flatMap fun chunk => Web.groupObject chunk.data := by
  obtain ⟨closes, hcalls⟩ := h
  have hwrites (rest : List Web.WriterCall) : (chunks.map (fun chunk : Web.EncodedVideoChunk =>
      Web.WriterCall.write (Web.groupObject chunk.data)) ++ rest).takeWhile (· ≠ .close) =
        chunks.map (fun chunk => .write (Web.groupObject chunk.data)) ++
          rest.takeWhile (· ≠ .close) :=
    List.takeWhile_append_of_pos (by simp)
  have hcloses : (List.replicate closes Web.WriterCall.close).takeWhile (· ≠ .close) = [] := by
    cases closes <;> simp [List.replicate_succ]
  rw [streamBytes, hcalls, List.cons_append, List.takeWhile_cons_of_pos (by simp), hwrites, hcloses,
    List.append_nil, List.flatMap_cons, List.flatMap_map]
  rfl

/-- The chunks are as many and as large as the codec of the browser can number. -/
structure SmallChunks (s : Publisher) : Prop where
  count : s.chunks.length ≤ 2 ^ 42
  sizes : ∀ chunk ∈ s.chunks, chunk.data.length < 2 ^ 42

/-- The chunks of the encoder as a video. -/
def pageVideo (s : Publisher) (h : SmallChunks s) : Video where
  groups := (groupsOf s.chunks).map (List.map Web.EncodedVideoChunk.data)
  fits := by
    refine List.forall_mem_map.mpr fun group hgroup => ?_
    refine List.forall_mem_map.mpr fun chunk hchunk => ?_
    have hmem := (Web.flatten_groupsOf s.chunks).mem (List.mem_flatten.mpr ⟨group, hgroup, hchunk⟩)
    exact h.sizes chunk hmem

theorem getElem?_pageVideo {s : Publisher} {h : SmallChunks s} {g : Nat} {payloads : List Bytes} :
    (pageVideo s h).groups[g]? = some payloads ↔ ∃ group, (groupsOf s.chunks)[g]? = some group ∧
      group.map Web.EncodedVideoChunk.data = payloads := by
  rw [pageVideo, List.getElem?_map, Option.map_eq_some_iff]

theorem SmallChunks.length_groups {s : Publisher} (h : SmallChunks s) :
    (pageVideo s h).groups.length ≤ 2 ^ 42 := by
  rw [pageVideo, List.length_map]
  exact (Web.length_groupsOf_le s.chunks).trans h.count

/-- The bytes of a group, as the page writes them. -/
theorem groupBytes_eq {s : Publisher} (h : SmallChunks s) {g : Nat}
    {group : List Web.EncodedVideoChunk} (hgroup : (groupsOf s.chunks)[g]? = some group) :
    groupBytes g (group.map Web.EncodedVideoChunk.data) =
      Web.groupHeader g ++ group.flatMap fun chunk => Web.groupObject chunk.data := by
  have hlt : g < (groupsOf s.chunks).length := (List.getElem?_eq_some_iff.mp hgroup).1
  have hsmall : g < 2 ^ 42 := lt_of_lt_of_le hlt ((Web.length_groupsOf_le s.chunks).trans h.count)
  rw [groupBytes, groupHeader_eq hsmall, List.flatMap_map]
  congr 1
  refine List.flatMap_congr fun chunk hchunk => (groupObject_eq ?_).symm
  exact (pageVideo s h).fits _ (List.mem_map_of_mem (List.mem_of_getElem? hgroup)) _
    (List.mem_map_of_mem hchunk)

/-- What the relay gets on the connection `p` are fronts of the streams of the page. -/
def PagePublishes (s : Publisher) (p : ConnectionId) (ls : List NetworkLabel) : Prop :=
  ∀ content, NetworkLabel.openUni p content ∈ ls → ∃ stream ∈ s.streams,
    content.bytes <+: streamBytes stream

/-- However the calls of the page run, it sends the video of its encoder. -/
theorem PagePublishes.sends {s : Publisher} {p : ConnectionId} {ls : List NetworkLabel}
    (h : PagePublishes s p ls) (hs : s.Inv) (hsmall : SmallChunks s) :
    Sends (pageVideo s hsmall) p ls := by
  intro content hopen _
  obtain ⟨stream, hstream, hfront⟩ := h content hopen
  obtain ⟨g, hg⟩ := List.mem_iff_getElem?.mp hstream
  have hid : stream.groupId = g := hs.ordered.ids g stream hg
  obtain ⟨written, hcarries, hfronts, -⟩ := hs.keepsGroupsWhole.carried
  obtain ⟨chunks, hchunks, hcarry⟩ := Table.get_of_forall₂ hcarries hg
  obtain ⟨group, hgroup, hfirst⟩ := Table.get_of_forall₂ hfronts hchunks
  rw [List.getElem?_take_of_lt (List.getElem?_eq_some_iff.mp hg).1] at hgroup
  refine ⟨g, _, getElem?_pageVideo.mpr ⟨group, hgroup, rfl⟩, hfront.trans ?_⟩
  rw [groupBytes_eq hsmall hgroup, streamBytes_of_carries hcarry, hid]
  exact (List.prefix_append_right_inj _).mpr (hfirst.flatMap _)

/-! ### The subscriber page -/

/-- The call reads the stream that the other one does. -/
def SameStream (call call' : GroupCall) : Prop :=
  call'.header = call.header ∧ call'.stream = call.stream

theorem decode_calls (s : Subscriber) (i : Nat) (call : GroupCall) (payload : Bytes)
    (accepted : Bool) : ∃ call',
      (s.decode i call payload accepted).calls = s.calls.set i call' ∧ SameStream call call' := by
  cases accepted with
  | true =>
    obtain ⟨point, hloop⟩ := GroupCall.loop_eq
      { call with isFirstObject := false, objectCount := call.objectCount + 1 }
    exact ⟨_, rfl, by rw [hloop]; exact ⟨rfl, rfl⟩⟩
  | false => exact ⟨_, rfl, rfl, rfl⟩

theorem afterRead_calls (s : Subscriber) (i : Nat) (call : GroupCall) (accepted : Bool) :
    ∃ call', (s.afterRead i call accepted).calls = s.calls.set i call' ∧
      SameStream call call' := by
  unfold Subscriber.afterRead
  split
  · exact ⟨_, rfl, rfl, rfl⟩
  next payload reader _ =>
    split
    · exact ⟨_, rfl, rfl, rfl⟩
    · split
      · exact decode_calls s i { call with reader } payload accepted
      · obtain ⟨point, hloop⟩ := GroupCall.loop_eq
          { call with reader, objectCount := call.objectCount + 1 }
        exact ⟨_, rfl, by rw [hloop]; exact ⟨rfl, rfl⟩⟩
  · exact ⟨_, rfl, rfl, rfl⟩

/-- Every call of the page reads a stream that an event has brought. -/
def Given (ls : List Web.SubscriberLabel) (s : Subscriber) : Prop :=
  ∀ call ∈ s.calls, Web.SubscriberLabel.event (.dataStream call.header call.stream) ∈ ls

theorem Given.set {ls : List Web.SubscriberLabel} {s s' : Subscriber} (h : Given ls s) {i : Nat}
    {call call' : GroupCall} (hcall : s.calls[i]? = some call)
    (hcalls : s'.calls = s.calls.set i call') (hsame : SameStream call call') : Given ls s' := by
  intro c hc
  rw [hcalls] at hc
  rcases List.mem_or_eq_of_mem_set hc with hold | rfl
  · exact h c hold
  · rw [hsame.1, hsame.2]
    exact h call (List.mem_of_getElem? hcall)

theorem Given.receive {ls : List Web.SubscriberLabel} {s : Subscriber} (h : Given ls s)
    (event : Web.SessionEvent) : Given (ls ++ [.event event]) (s.receive event) := by
  have hold (call : GroupCall) (hcall : call ∈ s.calls) :
      Web.SubscriberLabel.event (.dataStream call.header call.stream) ∈ ls ++ [.event event] :=
    List.mem_append_left _ (h call hcall)
  unfold Subscriber.receive
  split
  · exact hold
  next header reader =>
    split
    · exact hold
    · intro call hcall
      rcases List.mem_append.mp hcall with hcall | hcall
      · unfold Subscriber.abortActive at hcall
        split at hcall
        · obtain ⟨j, hj⟩ := List.mem_iff_getElem?.mp hcall
          obtain ⟨old, hget, rfl⟩ := Table.getElem?_modify.mp hj
          have hmem := hold old (List.mem_of_getElem? hget)
          split
          · exact hmem
          · exact hmem
        · exact hold call hcall
      · obtain ⟨point, hpoint⟩ := s.processGroup_eq header reader
        rw [List.mem_singleton.mp hcall, hpoint]
        exact List.mem_append_right _ (List.mem_singleton.mpr rfl)

theorem Given.step {ls : List Web.SubscriberLabel} {s s' : Subscriber} {l : Web.SubscriberLabel}
    (h : Given ls s) (hs : s.step l = some s') : Given (ls ++ [l]) s' := by
  have hold : Given (ls ++ [l]) s := fun call hcall => List.mem_append_left _ (h call hcall)
  cases l with
  | event event =>
    obtain ⟨-, rfl⟩ := Option.ite_some_none_eq_some.mp hs
    exact h.receive event
  | endOfEvents | decoderFails | stopFlushFails =>
    obtain ⟨-, rfl⟩ := Option.ite_some_none_eq_some.mp hs
    exact hold
  | flushed i =>
    obtain ⟨call, hwaiting, rfl⟩ := Option.map_eq_some_iff.mp hs
    obtain ⟨point, hloop⟩ := call.loop_eq
    exact hold.set (Subscriber.waiting_eq_some.mp hwaiting).1 rfl (by rw [hloop]; exact ⟨rfl, rfl⟩)
  | flushFails i | readFails i | cancelled i =>
    obtain ⟨call, hwaiting, rfl⟩ := Option.map_eq_some_iff.mp hs
    exact hold.set (Subscriber.waiting_eq_some.mp hwaiting).1 rfl ⟨rfl, rfl⟩
  | read i accepted =>
    obtain ⟨call, hwaiting, rfl⟩ := Option.map_eq_some_iff.mp hs
    obtain ⟨call', hcalls, hsame⟩ := afterRead_calls s i call accepted
    exact hold.set (Subscriber.waiting_eq_some.mp hwaiting).1 hcalls hsame
  | stop =>
    obtain rfl := Option.some.inj hs
    obtain ⟨session, stop, heq⟩ := s.stop_eq
    rw [heq]
    exact hold
  | stopFlushed j =>
    obtain ⟨-, rfl⟩ := Option.ite_some_none_eq_some.mp hs
    obtain ⟨session, decoder, -, heq⟩ := s.stopFlushed_eq j
    rw [heq]
    exact hold

theorem given (ls : List Web.SubscriberLabel) : Given ls (subscriber.run subscriber.init ls) := by
  refine subscriber.history (I := fun ls => Given ls (subscriber.run subscriber.init ls))
    (by simp [Given, subscriber]) (fun ls l s' h hstep hrun => ?_) (fun ls l h hrun => ?_) ls
  · rw [hrun]
    exact h.step hstep
  · rw [hrun]
    exact fun call hcall => List.mem_append_left _ (h call hcall)

/-- The data streams that the page is given have come from the relay, for the connection `p`; their
bytes are cut into chunks in any way. -/
def PageReceives (n : Network) (p : ConnectionId) (ls : List Web.SubscriberLabel) : Prop :=
  ∀ header reader, Web.SubscriberLabel.event (.dataStream header reader) ∈ ls →
    ∃ (content : ByteStream) (named : SubgroupHeader) (stream : Chunked),
      Arrived n p named content ∧ stream.bytes = content.bytes ∧
        Web.readEvent .uni stream = .ok (.dataStream header reader)

/-- The event of a data stream is its header, with what the header has left of it. -/
theorem readSubgroupHeader_of_readEvent {stream reader : Chunked} {header : Web.SubgroupHeader}
    (h : Web.readEvent .uni stream = .ok (.dataStream header reader)) :
    Web.readSubgroupHeader stream = .ok (header, reader) := by
  obtain ⟨⟨header', reader'⟩, hread, heq⟩ := ok_bind.mp h
  obtain ⟨rfl, rfl⟩ := Web.SessionEvent.dataStream.inj (Outcome.ok.inj heq)
  exact hread

section Receiver

variable {video : Video} {p : ConnectionId} {ls : List NetworkLabel}
  {sls : List Web.SubscriberLabel}

/-- A call reads a front of the group that its header names. -/
theorem front_of_call (hsends : Sends video p ls) (hids : video.groups.length ≤ 2 ^ 42)
    (hreceives : PageReceives (network.run .new ls) p sls) {call : GroupCall}
    (hcall : call ∈ (subscriber.run subscriber.init sls).calls) :
    ∃ group, video.groups[call.groupId]? = some group ∧
      call.stream.bytes <+: group.flatMap Web.groupObject := by
  obtain ⟨content, named, stream, harrived, hbytes, hread⟩ := hreceives _ _ (given sls call hcall)
  obtain ⟨g, group, hgroup, -, cut, hcut⟩ := front_of_arrived hsends harrived
  have hlt : g < 2 ^ 42 := lt_of_lt_of_le (List.getElem?_eq_some_iff.mp hgroup).1 hids
  have hobjects : (group.flatMap fun payload => objectBytes (objectHeader payload) payload) =
      group.flatMap Web.groupObject :=
    List.flatMap_congr fun payload hpayload =>
      (groupObject_eq (Video.length_lt hgroup payload hpayload)).symm
  rw [groupBytes, ← groupHeader_eq hlt, hobjects] at hcut
  obtain ⟨header, hid, hheader⟩ := isHeader_groupHeader hlt
  obtain ⟨w, hnamed, hsplit⟩ :=
    Web.readSubgroupHeader_reads.sound (readSubgroupHeader_of_readEvent hread)
  -- the header that is read is the one that the group begins with
  rw [← hbytes, hsplit.1, List.append_assoc] at hcut
  obtain ⟨rfl, hrest⟩ := Web.readSubgroupHeader_reads.unique hnamed hheader hcut
  exact ⟨group, by rwa [GroupCall.groupId, hid], cut, hrest⟩

/-- The payloads of objects that are in front of a front of a group are the first ones of the
group. -/
theorem payloads_isPrefix {group payloads : List Bytes} {b tail : Bytes}
    (hsizes : ∀ payload ∈ group, payload.length < 2 ^ 42)
    (hb : b <+: group.flatMap Web.groupObject) (hitems : Items Web.IsObject payloads b tail) :
    payloads <+: group := by
  obtain ⟨cut, hcut⟩ := hb
  have hgroup : Items Web.IsObject group (group.flatMap Web.groupObject) [] := by
    clear hcut
    induction group with
    | nil => exact .nil []
    | cons payload group ih =>
      rw [List.forall_mem_cons] at hsizes
      exact .cons (isObject_groupObject hsizes.1) (ih hsizes.2)
  have hmore := hitems.append cut
  rw [hcut] at hmore
  exact hmore.isPrefix Web.delimited_isObject hgroup fun payload w r hobject hnil =>
    hobject.ne_nil r hnil.symm

/-- What the decoder is passed are fronts of the groups that its calls are for, in the order of the
groups. -/
structure DecodesFronts (groups : List (List Web.EncodedVideoChunk)) (s : Subscriber) : Prop where
  fronts : ∀ call ∈ s.calls, ∃ group, groups[call.groupId]? = some group ∧
    s.decodedOf call.groupId <+: group
  inOrder : (s.decoded.map Prod.snd).Sublist groups.flatten

theorem decodesFronts_of_fronts {groups : List (List Web.EncodedVideoChunk)} {s : Subscriber}
    (hs : s.Inv) (h : ∀ call ∈ s.calls, ∃ group, groups[call.groupId]? = some group ∧
      s.decodedOf call.groupId <+: group) : DecodesFronts groups s := by
  refine ⟨h, sublist_flatten (k := 0) hs.forward (fun d _ => Nat.zero_le _) fun g => ?_⟩
  rw [Nat.zero_add]
  by_cases hknown : ∃ d ∈ s.decoded, d.1 = g
  · obtain ⟨d, hd, rfl⟩ := hknown
    obtain ⟨call, hcall, hid⟩ := hs.known d hd
    obtain ⟨group, hgroup, hfront⟩ := h call hcall
    rw [← hid, hgroup, Option.getD_some]
    exact hfront.sublist
  · have hnone : (s.decoded.filter fun d => d.1 = g) = [] := by
      rw [List.filter_eq_nil_iff]
      intro d hd hid
      exact hknown ⟨d, hd, by simpa using hid⟩
    rw [hnone]
    exact List.nil_sublist _

/-- Whatever fails, and however the streams are cut and the calls run, the page decodes fronts of
the groups of the video: their first payloads, the very first one as the key chunk. -/
theorem decodes_video (hsends : Sends video p ls) (hids : video.groups.length ≤ 2 ^ 42)
    (hreceives : PageReceives (network.run .new ls) p sls) :
    DecodesFronts (video.groups.map asChunks) (subscriber.run subscriber.init sls) := by
  have hinv : (subscriber.run subscriber.init sls).Inv :=
    (subscriber.reachable_run sls).invariant Subscriber.inv_init fun _ _ _ h hs => h.step hs
  refine decodesFronts_of_fronts hinv fun call hcall => ?_
  obtain ⟨group, hgroup, hfront⟩ := front_of_call hsends hids hreceives hcall
  obtain ⟨payloads, tail, hitems, hdecoded⟩ := hinv.decodesForward.inOrder call hcall
  have hpayloads := payloads_isPrefix (Video.length_lt hgroup) hfront hitems
  exact ⟨asChunks group, by rw [List.getElem?_map, hgroup, Option.map_some],
    hdecoded ▸ Web.asChunks_isPrefix hpayloads⟩

end Receiver

/-! ### From end to end -/

/-- From one page to the other: what the subscriber page decodes is a part of what the encoder of
the publisher page has given, in its order. -/
structure DecodesChunks (chunks : List Web.EncodedVideoChunk) (s : Subscriber) : Prop where
  fronts : ∀ call ∈ s.calls, ∃ group, (groupsOf chunks)[call.groupId]? = some group ∧
    s.decodedOf call.groupId <+: group
  inOrder : (s.decoded.map Prod.snd).Sublist chunks

theorem pageVideo_asChunks {s : Publisher} (h : SmallChunks s) :
    (pageVideo s h).groups.map asChunks = groupsOf s.chunks := by
  rw [pageVideo, List.map_map]
  refine (List.map_congr_left fun group hgroup => ?_).trans (List.map_id _)
  obtain ⟨first, rest, rfl⟩ := Web.groupsOf_asChunks s.chunks group hgroup
  exact congrArg asChunks (Web.data_asChunks (first :: rest))

theorem inv_of_writtenBefore {pls : List Web.PublisherLabel}
    (h : publisher.Meets Publisher.WrittenBefore publisher.init pls) :
    (publisher.run publisher.init pls).Inv :=
  publisher.invariant Publisher.inv_init (fun _ _ _ h hl hs => h.step hl hs) h

/-- From the publisher page, through the relay, to the subscriber page. -/
theorem page_to_page {pls : List Web.PublisherLabel} {p : ConnectionId} {ls : List NetworkLabel}
    {sls : List Web.SubscriberLabel}
    (hwritten : publisher.Meets Publisher.WrittenBefore publisher.init pls)
    (hsmall : SmallChunks (publisher.run publisher.init pls))
    (hpublishes : PagePublishes (publisher.run publisher.init pls) p ls)
    (hreceives : PageReceives (network.run .new ls) p sls) :
    DecodesChunks (publisher.run publisher.init pls).chunks
      (subscriber.run subscriber.init sls) := by
  have hsends := hpublishes.sends (inv_of_writtenBefore hwritten) hsmall
  obtain ⟨hfronts, hinOrder⟩ := decodes_video hsends hsmall.length_groups hreceives
  rw [pageVideo_asChunks hsmall] at hfronts hinOrder
  exact ⟨hfronts, hinOrder.trans (Web.flatten_groupsOf _)⟩

/-- The page publishes the group of two frames. -/
def publishOneGroup : List Web.PublisherLabel :=
  [.chunk ⟨.key, [0x10]⟩, .resume 0, .resume 0, .chunk ⟨.delta, [0x11, 0x12]⟩, .resume 0, .resume 1]

/-- The stream is cut off within the second object. -/
def cutGroup : Chunked where
  chunks := [[60, 1], [0, 0, 0, 1, 16, 0], [2, 17]]
  ending := .reset

def receiveCutGroup : List Web.SubscriberLabel :=
  [.event (.dataStream ⟨1, 0, false, true, some 0, none⟩
    { buffer := [0, 1, 16, 0], chunks := [[2, 17]], ending := .reset }), .flushed 0, .read 0 true,
    .readFails 0]

theorem smallChunks_oneGroup : SmallChunks (publisher.run publisher.init publishOneGroup) :=
  ⟨by decide, by decide⟩

theorem pagePublishes_oneGroup :
    PagePublishes (publisher.run publisher.init publishOneGroup) 0 relayOneGroup := by
  intro content hcontent
  have hbytes : (publisher.run publisher.init publishOneGroup).streams.map streamBytes =
      [oneGroupStream.bytes] := by decide
  rw [eq_of_openUni_mem hcontent]
  obtain ⟨stream, hstream, heq⟩ := List.mem_map.mp (hbytes ▸ List.mem_singleton.mpr rfl)
  exact ⟨stream, hstream, heq ▸ List.prefix_rfl⟩

theorem pageReceives_cutGroup :
    PageReceives (network.run .new relayOneGroup) 0 receiveCutGroup := by
  intro header reader h
  simp only [receiveCutGroup, List.mem_cons, Web.SubscriberLabel.event.injEq,
    Web.SessionEvent.dataStream.injEq, reduceCtorEq, List.not_mem_nil, or_false] at h
  obtain ⟨rfl, rfl⟩ := h
  exact ⟨{ bytes := cutGroup.bytes, ending := .reset }, _, cutGroup,
    arrived_oneGroup (by decide), rfl, by decide⟩

theorem page_to_page_cutGroup :
    DecodesChunks (publisher.run publisher.init publishOneGroup).chunks
      (subscriber.run subscriber.init receiveCutGroup) :=
  page_to_page (by decide) smallChunks_oneGroup pagePublishes_oneGroup pageReceives_cutGroup

/-- From moqt-pub to the subscriber page. -/
theorem pub_to_page {transport : Transport} {stdin : Bytes} {p : ConnectionId}
    {ls : List NetworkLabel} {sls : List Web.SubscriberLabel}
    (hpublishes : Publishes transport stdin p ls) (hids : (videoGroups stdin).length ≤ 2 ^ 42)
    (hreceives : PageReceives (network.run .new ls) p sls) :
    DecodesFronts ((videoGroups stdin).map fun group => asChunks (group.map IvfFrame.data))
      (subscriber.run subscriber.init sls) := by
  have hlength : (ivfVideo stdin).groups.length ≤ 2 ^ 42 := by rwa [ivfVideo, List.length_map]
  have hdecodes := decodes_video hpublishes.sends hlength hreceives
  rwa [ivfVideo, List.map_map] at hdecodes

theorem pub_to_page_cutGroup :
    DecodesFronts ((videoGroups oneGroup).map fun group => asChunks (group.map IvfFrame.data))
      (subscriber.run subscriber.init receiveCutGroup) :=
  pub_to_page publishes_oneGroup (by decide +kernel) pageReceives_cutGroup

/-- From the publisher page to moqt-sub. -/
theorem page_to_sub {pls : List Web.PublisherLabel} {p : ConnectionId} {ls : List NetworkLabel}
    {arrivals : List Arrival}
    (hwritten : publisher.Meets Publisher.WrittenBefore publisher.init pls)
    (hsmall : SmallChunks (publisher.run publisher.init pls))
    (hsizes : ∀ chunk ∈ (publisher.run publisher.init pls).chunks, chunk.data.length < 2 ^ 32)
    (hpublishes : PagePublishes (publisher.run publisher.init pls) p ls)
    (harrived : ∀ content ∈ arrivals.filterMap Arrival.content, ∃ header,
      Arrived (network.run .new ls) p header content) :
    ∃ fronts, Shows (pageVideo _ hsmall) (network.run .new ls) p arrivals fronts := by
  refine exists_shows (hpublishes.sends (inv_of_writtenBefore hwritten) hsmall) ?_ harrived
  refine List.forall_mem_map.mpr fun group hgroup => List.forall_mem_map.mpr fun chunk hchunk => ?_
  exact hsizes chunk ((Web.flatten_groupsOf _).mem (List.mem_flatten.mpr ⟨group, hgroup, hchunk⟩))

theorem page_to_sub_oneGroup : ∃ fronts, Shows (pageVideo _ smallChunks_oneGroup)
    (network.run .new relayOneGroup) 0 [.bi oneGroupStream, .uni oneGroupStream] fronts := by
  refine page_to_sub (by decide) smallChunks_oneGroup (by decide) pagePublishes_oneGroup
    fun content hcontent => ?_
  obtain rfl := List.mem_singleton.mp hcontent
  exact ⟨_, arrived_oneGroup List.prefix_rfl⟩

end Moqt.System
