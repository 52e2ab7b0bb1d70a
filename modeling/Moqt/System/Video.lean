import Moqt.System.Streams

/-! Video on its way from the standard input of moqt-pub, through the relay, to the standard output
of moqt-sub.  Whatever fails on the way, the subscriber writes frames of the publisher, whole and in
the order of their groups; if nothing fails, it writes all of them. -/

namespace Moqt.System

open Library Moqt.Wire Moqt.Relay Moqt.Pub Moqt.Sub

/-! ### What moqt-pub sends -/

/-- The groups that the frames on the standard input are sent in. -/
def videoGroups (stdin : Bytes) : List (List IvfFrame) :=
  groups IvfFrame.isKeyframe (readFrames stdin)

theorem flatten_videoGroups {stdin : Bytes} : (videoGroups stdin).flatten = readFrames stdin :=
  flatten_groups

/-- A frame of a group is a frame of the standard input. -/
theorem mem_readFrames_of_videoGroups {stdin : Bytes} {group : List IvfFrame}
    (h : group ∈ videoGroups stdin) {frame : IvfFrame} (hframe : frame ∈ group) :
    frame ∈ readFrames stdin := by
  rw [← flatten_videoGroups]
  exact List.mem_flatten.mpr ⟨group, h, hframe⟩

/-- A payload of a group is read back as the frame that it was. -/
theorem frameOf_payloads {stdin : Bytes} {group : List IvfFrame} (h : group ∈ videoGroups stdin) :
    (group.map IvfFrame.data).map frameOf = group := by
  rw [List.map_map, List.map_congr_left (g := id), List.map_id]
  intro frame hframe
  have hmem : frame ∈ readFrames stdin := mem_readFrames_of_videoGroups h hframe
  cases frame
  simp [frameOf, ← isKeyframe_of_mem_readFrames hmem]

theorem length_lt_of_videoGroups {stdin : Bytes} {group : List IvfFrame}
    (h : group ∈ videoGroups stdin) :
    ∀ payload ∈ group.map IvfFrame.data, payload.length < 2 ^ 32 := by
  intro payload hpayload
  obtain ⟨frame, hframe, rfl⟩ := List.mem_map.mp hpayload
  exact length_lt_of_mem_readFrames (mem_readFrames_of_videoGroups h hframe)

/-- The frames on the standard input as a video. -/
def ivfVideo (stdin : Bytes) : Video where
  groups := (videoGroups stdin).map (List.map IvfFrame.data)
  fits := List.forall_mem_map.mpr fun group hgroup payload hpayload =>
    (length_lt_of_videoGroups hgroup payload hpayload).trans (by decide)

theorem getElem?_ivfVideo {stdin : Bytes} {g : Nat} {payloads : List Bytes} :
    (ivfVideo stdin).groups[g]? = some payloads ↔
      ∃ group, (videoGroups stdin)[g]? = some group ∧ group.map IvfFrame.data = payloads := by
  rw [ivfVideo, List.getElem?_map, Option.map_eq_some_iff]

/-- What the relay gets on the connection `p` are fronts of the streams of the publisher. -/
def Publishes (transport : Transport) (stdin : Bytes) (p : ConnectionId)
    (ls : List NetworkLabel) : Prop :=
  ∀ content, NetworkLabel.openUni p content ∈ ls → ∃ stream,
    content.bytes <+: writtenTo stream (eventsOf (sendFromStdin transport stdin .new))

/-- Whatever is refused, the publisher sends its video. -/
theorem Publishes.sends {transport : Transport} {stdin : Bytes} {p : ConnectionId}
    {ls : List NetworkLabel} (h : Publishes transport stdin p ls) :
    Sends (ivfVideo stdin) p ls := by
  intro content hopen hne
  obtain ⟨stream, hfront⟩ := h content hopen
  have hleaves := leaves_sendFrames transport (readFrames stdin)
  have hwritten : writtenTo stream (eventsOf (sendFromStdin transport stdin .new)) ≠ [] := by
    intro hnil
    rw [hnil, List.prefix_nil] at hfront
    exact hne hfront
  obtain ⟨group, hgroup⟩ := hleaves.exists_group hwritten
  exact ⟨stream, _, getElem?_ivfVideo.mpr ⟨group, hgroup, rfl⟩,
    hfront.trans (hleaves.writtenTo hgroup)⟩

/-! ### What moqt-sub shows -/

/-- The frames of payloads that fit are read back from the output, and their first ones from a front
of it. -/
theorem readFrames_pipe {events : List Sub.SessionEvent}
    (hsize : ∀ payload ∈ events.flatMap Sub.SessionEvent.payloads, payload.length < 2 ^ 32) :
    readFrames (pipe events) = (events.flatMap Sub.SessionEvent.payloads).map frameOf ∧
      ∀ stdout, stdout <+: pipe events →
        readFrames stdout <+: (events.flatMap Sub.SessionEvent.payloads).map frameOf := by
  have hall : ∀ event ∈ events, ∀ payload ∈ event.payloads, payload.length < 2 ^ 32 :=
    fun event hevent payload hpayload =>
      hsize payload (List.mem_flatMap.mpr ⟨event, hevent, hpayload⟩)
  rcases pipe_cases hall with ⟨hpipe, hnone⟩ | ⟨body, hpipe, hitems⟩
  · rw [hpipe, hnone]
    refine ⟨rfl, fun stdout hstdout => ?_⟩
    rw [List.prefix_nil.mp hstdout]
    exact List.nil_prefix
  · rw [hpipe]
    exact ⟨readFrames_eq length_ivfHeader hitems,
      fun stdout hstdout => readFrames_isPrefix length_ivfHeader hitems hstdout⟩

/-- What the subscriber shows of a video are fronts of its groups, in the order in which their
streams have arrived; each is of the group that its stream names. -/
structure Shows (video : Video) (n : Network) (p : ConnectionId) (arrivals : List Arrival)
    (fronts : List (List Bytes)) : Prop where
  streams : List.Forall₂ (fun content front => ∃ (g : Nat) (group : List Bytes),
    video.groups[g]? = some group ∧ front <+: group ∧
      Arrived n p (subgroupHeader 1 g.toUInt64 0) content)
    (arrivals.filterMap Arrival.content) fronts
  whole : readFrames (pipe (receive arrivals)) = fronts.flatten.map frameOf
  cut : ∀ stdout, stdout <+: pipe (receive arrivals) →
    readFrames stdout <+: fronts.flatten.map frameOf

theorem exists_shows {video : Video} {p : ConnectionId} {ls : List NetworkLabel}
    {arrivals : List Arrival} (hsends : Sends video p ls)
    (hsmall : ∀ group ∈ video.groups, ∀ payload ∈ group, payload.length < 2 ^ 32)
    (harrived : ∀ content ∈ arrivals.filterMap Arrival.content, ∃ header,
      Arrived (network.run .new ls) p header content) :
    ∃ fronts, Shows video (network.run .new ls) p arrivals fronts := by
  have hgroup : ∀ content ∈ arrivals.filterMap Arrival.content, ∃ stream : Group,
      content.bytes <+: stream.bytes ∧ ∃ g : Nat,
        video.groups[g]? = some stream.payloads ∧
          Arrived (network.run .new ls) p (subgroupHeader 1 g.toUInt64 0) content := by
    intro content hcontent
    obtain ⟨header, harrived⟩ := harrived content hcontent
    obtain ⟨g, group, hgroup, rfl, hfront⟩ := front_of_arrived hsends harrived
    have hlength := Video.length_lt hgroup
    exact ⟨payloadGroup g group hlength, by rwa [bytes_payloadGroup], g,
      by rwa [payloads_payloadGroup], harrived⟩
  choose! stream hfront hstream using hgroup
  have hfronts : Fronts (arrivals.filterMap Arrival.content)
      ((arrivals.filterMap Arrival.content).map stream) :=
    List.forall₂_map_right_iff.mpr (List.forall₂_same.mpr hfront)
  obtain ⟨fronts, hpayloads, hreceive⟩ := receive_fronts hfronts
  rw [List.forall₂_map_left_iff] at hpayloads
  have hshown := (List.forall₂_and_left _ _).mpr ⟨hstream, hpayloads⟩
  have hlength : ∀ payload ∈ fronts.flatten, payload.length < 2 ^ 32 := by
    intro payload hpayload
    obtain ⟨front, hmem, hpayload⟩ := List.mem_flatten.mp hpayload
    obtain ⟨content, -, ⟨g, hgroup, -⟩, hfirst⟩ := Table.exists_left hshown hmem
    exact hsmall _ (List.mem_of_getElem? hgroup) payload (hfirst.mem hpayload)
  obtain ⟨hwhole, hcut⟩ := readFrames_pipe (hreceive ▸ hlength)
  rw [hreceive] at hwhole hcut
  refine ⟨fronts, hshown.imp ?_, hwhole, hcut⟩
  rintro content front ⟨⟨g, hgroup, harrived⟩, hfirst⟩
  exact ⟨g, _, hgroup, hfirst, harrived⟩

/-- What the subscriber shows are fronts of groups of the publisher, in the order in which their
streams have arrived; each is of the group that its stream names. -/
structure ShowsFronts (stdin : Bytes) (n : Network) (p : ConnectionId) (arrivals : List Arrival)
    (fronts : List (List IvfFrame)) : Prop where
  streams : List.Forall₂ (fun content front => ∃ (g : Nat) (group : List IvfFrame),
    (videoGroups stdin)[g]? = some group ∧ front <+: group ∧
      Arrived n p (subgroupHeader 1 g.toUInt64 0) content)
    (arrivals.filterMap Arrival.content) fronts
  whole : readFrames (pipe (receive arrivals)) = fronts.flatten
  cut : ∀ stdout, stdout <+: pipe (receive arrivals) → readFrames stdout <+: fronts.flatten

theorem shows_fronts {transport : Transport} {stdin : Bytes} {p : ConnectionId}
    {ls : List NetworkLabel} {arrivals : List Arrival}
    (hpublishes : Publishes transport stdin p ls)
    (harrived : ∀ content ∈ arrivals.filterMap Arrival.content, ∃ header,
      Arrived (network.run .new ls) p header content) :
    ∃ fronts, ShowsFronts stdin (network.run .new ls) p arrivals fronts := by
  have hsmall : ∀ group ∈ (ivfVideo stdin).groups, ∀ payload ∈ group, payload.length < 2 ^ 32 :=
    List.forall_mem_map.mpr fun group hgroup => length_lt_of_videoGroups hgroup
  obtain ⟨fronts, hshows⟩ := exists_shows hpublishes.sends hsmall harrived
  obtain ⟨hstreams, hwhole, hcut⟩ := hshows
  rw [List.map_flatten] at hwhole hcut
  refine ⟨fronts.map (List.map frameOf), ?_, hwhole, hcut⟩
  refine List.forall₂_map_right_iff.mpr (hstreams.imp ?_)
  rintro content front ⟨g, payloads, hpayloads, hfirst, harrived⟩
  obtain ⟨group, hgroup, rfl⟩ := getElem?_ivfVideo.mp hpayloads
  refine ⟨g, group, hgroup, ?_, harrived⟩
  rw [← frameOf_payloads (List.mem_of_getElem? hgroup)]
  exact hfirst.map frameOf

/-- The output of the subscriber for a group of two frames, which is what the publisher reads. -/
def oneGroup : Bytes := pipe [.dataStream [[0x10], [0x11, 0x12]]]

def oneGroupStream : ByteStream where
  bytes := [60, 1, 0, 0, 0, 1, 16, 0, 2, 17, 18]
  ending := .finished

/-- The group is relayed to a subscriber. -/
def relayOneGroup : List NetworkLabel :=
  [NetworkLabel.relay .connect, .relay .connect] ++ Schedule.publish 0 0 ++ Schedule.request 1 0 ++
    [NetworkLabel.relay (.subscribe 0 .proceed), .relay (.subscribe 0 (.opened true)),
      .relay (.subscribe 0 (.wrote true)), .answer 0 (.subscribeOk ⟨1, [], []⟩),
      .relay (.subscribe 0 (.response (some (.subscribeOk ⟨1, [], []⟩))))] ++
    Schedule.establish 0 ++
    [NetworkLabel.openUni 0 oneGroupStream,
      .relay (.event 0 (.dataStream (Pub.subgroupHeader 1 0 0)))] ++
    ([.proceed, .opened true, .proceed, .object (some (some ⟨[0, 1], [16]⟩)), .wrote true, .proceed,
      .object (some (some ⟨[0, 2], [17, 18]⟩)), .wrote true, .proceed, .object (some none),
      .wrote true, .proceed] : List Input).map fun input => NetworkLabel.relay (.dataStream 0 input)

def oneGroupTask : DataStreamTask where
  senderSession := 0
  header := Pub.subgroupHeader 1 0 0
  pc := .returned
  activeWriters := [0]
  opened := [0]

def oneGroupReader : DataReader where
  connection := 0
  answers := [(0, .subscribeOk ⟨1, [], []⟩)]
  hasProperties := false
  headerBytes := [60, 1, 0, 0]
  body := oneGroupStream.drop 4
  rest := oneGroupStream.drop 11
  taken := [⟨[0, 1], [16]⟩, ⟨[0, 2], [17, 18]⟩]
  subSessions := [⟨1⟩]
  opens := [true]

theorem relayed_oneGroup :
    (network.run .new relayOneGroup).world.dataStreams[0]? = some oneGroupTask ∧
      (network.run .new relayOneGroup).readers[0]? = some oneGroupReader ∧
      (network.run .new relayOneGroup).world.streams[0]? = some
        ⟨⟨1⟩, Pub.subgroupHeader 1 0 0, [⟨[0, 1], [16]⟩, ⟨[0, 2], [17, 18]⟩], true⟩ := by
  decide +kernel

/-- One stream comes from the publisher. -/
theorem eq_of_openUni_mem {content : ByteStream}
    (h : NetworkLabel.openUni 0 content ∈ relayOneGroup) : content = oneGroupStream := by
  simpa [relayOneGroup, Schedule.publish, Schedule.request, Schedule.establish] using h

theorem written_oneGroup : oneGroupStream.bytes =
    writtenTo 0 (eventsOf (sendFromStdin .unlimited oneGroup .new)) := by
  decide +kernel

theorem publishes_oneGroup : Publishes .unlimited oneGroup 0 relayOneGroup := by
  intro content hcontent
  rw [eq_of_openUni_mem hcontent, written_oneGroup]
  exact ⟨0, List.prefix_rfl⟩

theorem arrived_oneGroup {content : ByteStream} (h : content.bytes <+: oneGroupStream.bytes) :
    Arrived (network.run .new relayOneGroup) 0 (subgroupHeader 1 0 0) content := by
  obtain ⟨ht, hreader, hd⟩ := relayed_oneGroup
  exact ⟨0, oneGroupTask, oneGroupReader, 0, _, ht, hreader, rfl, rfl, by decide, hd, h⟩

/-- The stream is cut off within the second object. -/
theorem shows_fronts_cutGroup : ∃ fronts, ShowsFronts oneGroup (network.run .new relayOneGroup) 0
    [.uni { bytes := [60, 1, 0, 0, 0, 1, 16, 0, 2], ending := .reset }, .bi oneGroupStream]
    fronts := by
  refine shows_fronts publishes_oneGroup fun content hcontent => ?_
  obtain rfl := List.mem_singleton.mp hcontent
  exact ⟨_, arrived_oneGroup (by decide)⟩

/-! ### Streams that come whole -/

/-- The relay gets the streams of the publisher on the connection `p` whole. -/
def PublishesWhole (transport : Transport) (stdin : Bytes) (p : ConnectionId)
    (ls : List NetworkLabel) : Prop :=
  ∀ content, NetworkLabel.openUni p content ∈ ls → content.ending = .finished ∧ ∃ stream,
    content.bytes = writtenTo stream (eventsOf (sendFromStdin transport stdin .new))

/-- A run of the publisher that ends well has sent its video, of which each group has an ID of its
own: they are counted by an integer of 64 bits. -/
theorem PublishesWhole.sends {transport : Transport} {stdin : Bytes} {p : ConnectionId}
    {ls : List NetworkLabel} {count : UInt64} {c : Pub.Connection}
    (h : PublishesWhole transport stdin p ls)
    (hrun : sendFromStdin transport stdin .new = .ok count c) :
    SendsWhole (ivfVideo stdin) p ls ∧ (ivfVideo stdin).groups.length ≤ 2 ^ 64 := by
  obtain ⟨hcount, rfl⟩ := sendFrames_eq_ok hrun
  constructor
  · intro content hopen hne
    obtain ⟨hending, stream, hbytes⟩ := h content hopen
    have hleaves := leaves_sendFrames transport (readFrames stdin)
    obtain ⟨group, hgroup⟩ := hleaves.exists_group (hbytes ▸ hne)
    rw [hrun] at hbytes
    exact ⟨hending, stream, _, getElem?_ivfVideo.mpr ⟨group, hgroup, rfl⟩,
      hbytes.trans (writtenTo_groupsEvents hgroup)⟩
  · have hfits := count.toNat_lt
    rw [hcount] at hfits
    rw [ivfVideo, List.length_map]
    exact hfits.le

/-- What the subscriber shows are the groups `gs`, whole; so it shows the video of the publisher,
if these are all groups in their order. -/
structure ShowsGroups (stdin : Bytes) (gs : List (List IvfFrame × Nat)) (arrivals : List Arrival) :
    Prop where
  groups : readFrames (pipe (receive arrivals)) = gs.flatMap Prod.fst
  all : gs = (videoGroups stdin).zipIdx → readFrames (pipe (receive arrivals)) = readFrames stdin

theorem shows_groups {transport : Transport} {stdin : Bytes} {p : ConnectionId}
    {ls : List NetworkLabel} {count : UInt64} {c : Pub.Connection}
    {gs : List (List IvfFrame × Nat)} {contents : List ByteStream}
    (hrun : sendFromStdin transport stdin .new = .ok count c)
    (hpublishes : PublishesWhole transport stdin p ls)
    (hgs : ∀ g ∈ gs, g ∈ (videoGroups stdin).zipIdx)
    (harrived : List.Forall₂ (fun g => ArrivedWhole (network.run .new ls) p g.2) gs contents) :
    ShowsGroups stdin gs (contents.map .uni) := by
  obtain ⟨hsends, hids⟩ := hpublishes.sends hrun
  have hgroup : ∀ g ∈ gs, (videoGroups stdin)[g.2]? = some g.1 := fun g hg =>
    List.mem_zipIdx_iff_getElem?.mp (hgs g hg)
  have hvideo : ∀ g ∈ gs, (ivfVideo stdin).groups[g.2]? = some (g.1.map IvfFrame.data) :=
    fun g hg => getElem?_ivfVideo.mpr ⟨g.1, hgroup g hg, rfl⟩
  have hstream : ∀ g ∈ gs, ∃ stream : Group,
      stream.bytes = groupBytes g.2 (g.1.map IvfFrame.data) ∧
        stream.payloads = g.1.map IvfFrame.data := by
    intro g hg
    have hlength := Video.length_lt (hvideo g hg)
    exact ⟨_, bytes_payloadGroup g.2 _ hlength, payloads_payloadGroup g.2 _ hlength⟩
  choose! stream hbytes hpayloads using hstream
  have hcontents : List.Forall₂ (fun content (group : Group) => content.bytes = group.bytes)
      contents (gs.map stream) := by
    refine List.forall₂_map_right_iff.mpr (List.Forall₂.flip ?_)
    have hboth := (List.forall₂_and_left _ _).mpr ⟨fun g (hg : g ∈ gs) => hg, harrived⟩
    refine hboth.imp ?_
    rintro g content ⟨hg, harrived⟩
    exact (harrived.bytes hsends hids (hvideo g hg)).trans (hbytes g hg).symm
  have hreceive := receive_whole hcontents
  have hevents : (receive (contents.map .uni)).flatMap Sub.SessionEvent.payloads =
      gs.flatMap fun g => g.1.map IvfFrame.data := by
    rw [hreceive, List.flatMap_map, List.flatMap_map]
    exact List.flatMap_congr fun g hg => hpayloads g hg
  have hlength : ∀ payload ∈ (receive (contents.map .uni)).flatMap Sub.SessionEvent.payloads,
      payload.length < 2 ^ 32 := by
    intro payload hpayload
    rw [hevents] at hpayload
    obtain ⟨g, hg, hpayload⟩ := List.mem_flatMap.mp hpayload
    exact length_lt_of_videoGroups (List.mem_of_getElem? (hgroup g hg)) payload hpayload
  have hframes : readFrames (pipe (receive (contents.map .uni))) = gs.flatMap Prod.fst := by
    rw [(readFrames_pipe hlength).1, hevents, List.map_flatMap]
    exact List.flatMap_congr fun g hg => frameOf_payloads (List.mem_of_getElem? (hgroup g hg))
  refine ⟨hframes, fun hall => ?_⟩
  rw [hframes, hall, List.flatMap_def, List.zipIdx_map_fst]
  exact flatten_videoGroups

theorem shows_groups_oneGroup :
    ShowsGroups oneGroup (videoGroups oneGroup).zipIdx ([oneGroupStream].map .uni) := by
  have hrun : sendFromStdin .unlimited oneGroup .new = .ok 1
      ⟨1, (eventsOf (sendFromStdin .unlimited oneGroup .new)), []⟩ := rfl
  have hgroups : (videoGroups oneGroup).zipIdx =
      [([⟨[0x10], true⟩, ⟨[0x11, 0x12], false⟩], 0)] := by
    decide +kernel
  obtain ⟨ht, hreader, hd⟩ := relayed_oneGroup
  have hpublishes : PublishesWhole .unlimited oneGroup 0 relayOneGroup := by
    intro content hcontent
    rw [eq_of_openUni_mem hcontent]
    exact ⟨rfl, 0, written_oneGroup⟩
  refine shows_groups hrun hpublishes (fun g hg => hg) ?_
  rw [hgroups]
  exact .cons ⟨0, oneGroupTask, oneGroupReader, 0, _, ht, hreader, rfl, rfl, rfl, by decide,
    by decide, hd, rfl⟩ .nil

end Moqt.System
