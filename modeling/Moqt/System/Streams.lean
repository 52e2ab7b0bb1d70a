import Moqt.Pub.Interrupted
import Moqt.Relay.Fidelity
import Moqt.Relay.Session
import Moqt.Sub.Receive
import Moqt.Wire.VarintTable

/-! Video on its way through the relay.  A publisher sends each group of payloads on a data stream
of its own; whatever fails on the way, what comes to a subscriber of a stream is a front of one of
the groups. -/

namespace Moqt.System

open Library Moqt.Wire Moqt.Relay Moqt.Pub Moqt.Sub

/-! ### Groups as data streams -/

/-- The groups of a video, in the order of their IDs.  The payloads are of a size that is written
alike by all clients. -/
structure Video where
  groups : List (List Bytes)
  fits : ∀ group ∈ groups, ∀ payload ∈ group, payload.length < 2 ^ 42

theorem Video.length_lt {video : Video} {g : Nat} {group : List Bytes}
    (h : video.groups[g]? = some group) : ∀ payload ∈ group, payload.length < 2 ^ 42 :=
  video.fits group (List.mem_of_getElem? h)

/-- The object that a payload is sent as. -/
def payloadObject (payload : Bytes) : RawObject where
  headerBytes := encodeObjectHeader (objectHeader payload)
  payload

theorem framed_payloadObject {payload : Bytes} (h : payload.length < 2 ^ 42) :
    (payloadObject payload).Framed false := by
  refine ⟨objectHeader payload, ?_, ?_⟩
  · have hformat : HeaderFormat false (objectHeader payload)
        (encodeVarint 0 ++ encodeVarint (objectHeader payload).payloadLength ++ []) :=
      .mk (isVarint_encode _) (isVarint_encode _) rfl
    rwa [List.append_nil] at hformat
  · have hlength : payload.length.toUInt64.toNat = payload.length :=
      Nat.mod_eq_of_lt (by omega)
    exact hlength.symm

theorem length_encodeVarint_le_nine (v : UInt64) : (encodeVarint v).length ≤ 9 := by
  have hmem := (isVarint_encode v).length_mem
  simp only [varintLengths, List.mem_cons, List.not_mem_nil, or_false] at hmem
  omega

theorem length_payloadObject {payload : Bytes} (h : payload.length < 2 ^ 42) :
    (payloadObject payload).bytes.length < 2 ^ 62 := by
  have hdelta := length_encodeVarint_le_nine (objectHeader payload).objectIdDelta
  have hlength := length_encodeVarint_le_nine (objectHeader payload).payloadLength
  simp only [payloadObject, RawObject.bytes, encodeObjectHeader, List.length_append]
  omega

/-- The data stream of a group. -/
def payloadGroup (groupId : Nat) (group : List Bytes)
    (h : ∀ payload ∈ group, payload.length < 2 ^ 42) : Group where
  header := subgroupHeader 1 groupId.toUInt64 0
  objects := group.map payloadObject
  framed := List.forall_mem_map.mpr fun payload hmem => framed_payloadObject (h payload hmem)
  fits := List.forall_mem_map.mpr fun payload hmem => length_payloadObject (h payload hmem)

theorem bytes_payloadGroup (groupId : Nat) (group : List Bytes)
    (h : ∀ payload ∈ group, payload.length < 2 ^ 42) :
    (payloadGroup groupId group h).bytes = groupBytes groupId group := by
  rw [Group.bytes, groupBytes, payloadGroup, List.flatMap_map]
  rfl

theorem payloads_payloadGroup (groupId : Nat) (group : List Bytes)
    (h : ∀ payload ∈ group, payload.length < 2 ^ 42) :
    (payloadGroup groupId group h).payloads = group := by
  rw [Group.payloads, payloadGroup, List.map_map]
  exact List.map_id group

/-! ### The streams of the relay's readers -/

/-- A move changes nothing of where the stream comes from. -/
theorem source_of_moves {reader reader' : DataReader} {w : World} {t : DataStreamTask}
    {input : Input} (h : reader.Moves w t input reader') :
    reader'.connection = reader.connection ∧ reader'.headerBytes = reader.headerBytes ∧
      reader'.body = reader.body := by
  cases h with
  | object =>
    rcases reader.read_cases with ⟨o, rest, -, -, hread⟩ | ⟨hread, -⟩ | ⟨hread, -⟩ <;> rw [hread]
    · exact ⟨rfl, rfl, rfl⟩
    · exact ⟨rfl, rfl, rfl⟩
    · exact ⟨rfl, rfl, rfl⟩
  | observe =>
    unfold DataReader.observe
    split <;> exact ⟨rfl, rfl, rfl⟩

/-- A stream that waits on a link, or is read by a task, has been opened by the peer in the run. -/
structure Sourced (ls : List NetworkLabel) : Prop where
  links : ∀ (c : ConnectionId) (link : Link), (network.run .new ls).links[c]? = some link →
    ∀ stream ∈ link.uni, NetworkLabel.openUni c stream.content ∈ ls
  readers : ∀ (i : Nat) (t : DataStreamTask) (reader : DataReader),
    (network.run .new ls).world.dataStreams[i]? = some t →
    (network.run .new ls).readers[i]? = some reader → ∃ content,
      NetworkLabel.openUni reader.connection content ∈ ls ∧
        readSubgroupHeader.Returns content (t.header, reader.headerBytes) reader.body

theorem Sourced.step {ls : List NetworkLabel} {l : NetworkLabel} (h : Sourced ls)
    (hstep : NetworkStep (network.run .new ls) l (network.run .new (ls ++ [l]))) :
    Sourced (ls ++ [l]) := by
  have hforwarding := forwarding_of_reachable (network.reachable_run ls)
  constructor
  · intro c link' hlink' stream hstream
    rcases hstep.linkMove hlink' with ⟨link, hlink, hmove⟩ | ⟨-, -, rfl⟩
    · rcases hmove.uni stream hstream with hold | ⟨rfl, -⟩
      · exact List.mem_append_left _ (h.links c link hlink stream hold)
      · exact List.mem_append_right _ (List.mem_singleton.mpr rfl)
    · cases hstream
  · intro i t' reader' ht' hreader'
    cases hstep.taskOrigin hforwarding.length ht' hreader' with
    | kept ht hreader =>
      obtain ⟨content, hmem, hread⟩ := h.readers i t' reader' ht hreader
      exact ⟨content, List.mem_append_left _ hmem, hread⟩
    | accepted hlink hstream hconn hread ht' hreader' =>
      subst ht' hreader'
      exact ⟨_, List.mem_append_left _ (h.links _ _ hlink _ hstream), hread⟩
    | @moved t reader input hl ht hreader hdata hmoves =>
      obtain ⟨content, hmem, hread⟩ := h.readers i t reader ht hreader
      obtain ⟨t₁, ht₁, hmove⟩ := hdata.move ht
      obtain rfl := Option.mem_unique ht' ht₁
      obtain ⟨hconnection, hheaderBytes, hbody⟩ := source_of_moves hmoves
      rw [hconnection, hheaderBytes, hbody, hmove.header]
      exact ⟨content, List.mem_append_left _ hmem, hread⟩

theorem sourced (ls : List NetworkLabel) : Sourced ls := by
  refine network.history ⟨nofun, nofun⟩ (fun ls l n' h hstep hrun => ?_) (fun ls l h hrun => ?_) ls
  · exact h.step (hrun ▸ NetworkStep.of_step hstep)
  · have hsame : network.run .new (ls ++ [l]) = network.run .new ls := hrun
    refine ⟨fun c link hlink stream hstream => ?_, fun i t reader ht hreader => ?_⟩
    · rw [hsame] at hlink
      exact List.mem_append_left _ (h.links c link hlink stream hstream)
    · rw [hsame] at ht hreader
      obtain ⟨content, hmem, hread⟩ := h.readers i t reader ht hreader
      exact ⟨content, List.mem_append_left _ hmem, hread⟩

/-! ### The streams to subscribers -/

section Carried

variable {streams : List Downstream} {t : DataStreamTask} {reader : DataReader} {s : StreamId}

theorem header_of_opened (h : Opened streams t reader) (hs : s ∈ t.opened) :
    ∃ d, streams[s]? = some d ∧ d.header = t.header := by
  have hall := ((List.forall₂_and_left (p := fun s => ∃ d, streams[s]? = some d ∧
    d.header = t.header) (R := fun _ _ => True) _ _).mp (h.granted.imp ?_)).1
  · exact hall s hs
  · rintro s session ⟨d, hd, -, hheader⟩
    exact ⟨⟨d, hd, hheader⟩, trivial⟩

/-- A stream to a subscriber carries the first of the objects that have been read. -/
theorem carried (h : Relaying streams t reader) (hs : s ∈ t.opened) :
    ∃ d, streams[s]? = some d ∧ d.header = t.header ∧ d.objects <+: reader.taken := by
  obtain ⟨-, hopened, hphase⟩ := h
  have carry {ws : List StreamId} {objects : List RawObject} {finished : Bool}
      (h : Carry streams t.header ws objects finished) (hmem : s ∈ ws)
      (hobjects : objects <+: reader.taken) :
      ∃ d, streams[s]? = some d ∧ d.header = t.header ∧ d.objects <+: reader.taken := by
    obtain ⟨session, hd⟩ := h s hmem
    exact ⟨_, hd, rfl, hobjects⟩
  by_cases hfailed : s ∈ reader.failed
  · obtain ⟨-, d, hd, hobjects, -⟩ := hopened.failed s hfailed
    obtain ⟨d', hd', hheader⟩ := header_of_opened hopened hs
    obtain rfl := Option.mem_unique hd hd'
    exact ⟨d, hd, hheader, hobjects⟩
  have hmem {ws : List StreamId} (halive : Alive t reader ws) : s ∈ ws :=
    (halive.mem s).mpr ⟨hs, hfailed⟩
  have none_opened (h : t.opened = []) : False := by
    rw [h] at hs
    cases hs
  have dropping {todo : List StreamId} (h : Dropping streams t reader todo) :
      ∃ d, streams[s]? = some d ∧ d.header = t.header ∧ d.objects <+: reader.taken := by
    obtain ⟨session, finished, hd⟩ := h.carry s (hmem h.alive)
    exact ⟨_, hd, rfl, List.prefix_rfl⟩
  unfold Phase at hphase
  split at hphase
  next => exact (none_opened hphase.opened).elim
  next => exact (none_opened hphase.opened).elim
  next => exact carry hphase.carry (hmem hphase.alive) List.nil_prefix
  next => exact carry hphase.carry (hmem hphase.alive) List.prefix_rfl
  next =>
    obtain ⟨-, halive, hcarry, before, htaken, howed⟩ := hphase
    rcases List.mem_append.mp (hmem halive) with hmem | hmem
    · exact carry hcarry hmem List.prefix_rfl
    · exact carry howed hmem (htaken ▸ List.prefix_append _ _)
  next =>
    obtain ⟨-, -, ⟨done, halive, hdone⟩, hcarry⟩ := hphase
    rcases List.mem_append.mp (hmem halive) with hmem | hmem
    · exact carry hdone hmem List.prefix_rfl
    · exact carry hcarry hmem List.prefix_rfl
  next => exact dropping hphase
  next =>
    rcases hphase with hdrained | ⟨-, ws, heven⟩ | hphase
    · exact (none_opened hdrained.opened).elim
    · exact carry heven.carry (hmem heven.alive) List.prefix_rfl
    · exact dropping hphase

end Carried

/-! ### What comes to a subscriber -/

/-- What the relay gets on the connection `p` are fronts of the groups. -/
def Sends (video : Video) (p : ConnectionId) (ls : List NetworkLabel) : Prop :=
  ∀ content, NetworkLabel.openUni p content ∈ ls → content.bytes ≠ [] →
    ∃ (g : Nat) (group : List Bytes), video.groups[g]? = some group ∧
      content.bytes <+: groupBytes g group

/-- The content is a front of a stream that the relay has opened to a subscriber, for a stream with
the header that came on the connection `p`. -/
def Arrived (n : Network) (p : ConnectionId) (header : SubgroupHeader) (content : ByteStream) :
    Prop :=
  ∃ (i : Nat) (t : DataStreamTask) (reader : DataReader) (s : StreamId) (d : Downstream),
    n.world.dataStreams[i]? = some t ∧ n.readers[i]? = some reader ∧ reader.connection = p ∧
    t.header = header ∧ s ∈ t.opened ∧ n.world.streams[s]? = some d ∧ content.bytes <+: d.bytes

section Publisher

variable {video : Video} {p : ConnectionId} {ls : List NetworkLabel} {i : Nat} {t : DataStreamTask}
  {reader : DataReader}

/-- A front of a group from which a header can be read has the header of the group. -/
theorem header_of_content {g : Nat} {group : List Bytes} {content body : ByteStream}
    {header : SubgroupHeader} {raw : Bytes} (hgroup : video.groups[g]? = some group)
    (hread : readSubgroupHeader.Returns content (header, raw) body)
    (hfront : content.bytes <+: groupBytes g group) :
    header = subgroupHeader 1 g.toUInt64 0 ∧ raw = header.encode ∧
      body.bytes <+: (group.map payloadObject).flatMap RawObject.bytes := by
  rw [← bytes_payloadGroup g group (Video.length_lt hgroup)] at hfront
  obtain ⟨rfl, rfl, hbody⟩ := Group.header_of_front hfront hread
  exact ⟨rfl, rfl, hbody⟩

theorem content_ne_nil {content body : ByteStream} {header : SubgroupHeader} {raw : Bytes}
    (hread : readSubgroupHeader.Returns content (header, raw) body) : content.bytes ≠ [] := by
  obtain ⟨⟨streamType, hformat⟩, hsplit⟩ := returns_readSubgroupHeader.mp hread
  intro hnil
  rw [hsplit.1, List.append_eq_nil_iff] at hnil
  cases hformat with
  | mk htype typeField => simp [typeField.ne_nil] at hnil

/-- A task that relays a stream of the publisher relays one of the groups. -/
theorem group_of_task (hsends : Sends video p ls)
    (ht : (network.run .new ls).world.dataStreams[i]? = some t)
    (hreader : (network.run .new ls).readers[i]? = some reader) (hconn : reader.connection = p) :
    ∃ (g : Nat) (group : List Bytes), video.groups[g]? = some group ∧
      t.header = subgroupHeader 1 g.toUInt64 0 ∧
      reader.body.bytes <+: (group.map payloadObject).flatMap RawObject.bytes := by
  obtain ⟨content, hopen, hread⟩ := (sourced ls).readers i t reader ht hreader
  rw [hconn] at hopen
  obtain ⟨g, group, hgroup, hfront⟩ := hsends content hopen (content_ne_nil hread)
  obtain ⟨hheader, -, hbody⟩ := header_of_content hgroup hread hfront
  exact ⟨g, group, hgroup, hheader, hbody⟩

/-- What has been read of a group is the first of its objects. -/
theorem taken_of_group {g : Nat} {group : List Bytes} (hreads : Reads t reader)
    (hgroup : video.groups[g]? = some group) (hheader : t.header = subgroupHeader 1 g.toUInt64 0)
    (hbody : reader.body.bytes <+: (group.map payloadObject).flatMap RawObject.bytes) :
    reader.taken <+: group.map payloadObject := by
  have hproperties : reader.hasProperties = false := by
    rw [hreads.properties, hheader]
    rfl
  have htaken := hreads.taken
  rw [hproperties] at htaken
  have hframed := (payloadGroup g group (Video.length_lt hgroup)).framed
  obtain ⟨cut, hcut⟩ := hbody
  rw [hreads.rest.1, List.append_assoc] at hcut
  obtain ⟨more, hmore, -⟩ := objects_of_append htaken hframed hcut
  exact ⟨more, hmore.symm⟩

/-- What arrives of a stream of the publisher is a front of a group. -/
theorem front_of_arrived (hsends : Sends video p ls) {header : SubgroupHeader}
    {content : ByteStream} (h : Arrived (network.run .new ls) p header content) :
    ∃ (g : Nat) (group : List Bytes), video.groups[g]? = some group ∧
      header = subgroupHeader 1 g.toUInt64 0 ∧ content.bytes <+: groupBytes g group := by
  obtain ⟨i, t, reader, s, d, ht, hreader, hconn, hheader, hs, hd, hcontent⟩ := h
  obtain ⟨g, group, hgroup, hnamed, hbody⟩ := group_of_task hsends ht hreader hconn
  have hforwarding := forwarding_of_reachable (network.reachable_run ls)
  have hrelaying := hforwarding.relaying i t reader ht hreader
  obtain ⟨d', hd', hdheader, hobjects⟩ := carried hrelaying hs
  obtain rfl := Option.mem_unique hd hd'
  have hfront := hobjects.trans (taken_of_group hrelaying.reads hgroup hnamed hbody)
  refine ⟨g, group, hgroup, hheader ▸ hnamed, hcontent.trans ?_⟩
  rw [← bytes_payloadGroup g group (Video.length_lt hgroup), Group.bytes, Downstream.bytes,
    hdheader, hnamed]
  exact (List.prefix_append_right_inj _).mpr (hfront.flatMap _)

end Publisher

/-! ### Streams that come whole -/

/-- The relay gets the groups on the connection `p`, each of them whole. -/
def SendsWhole (video : Video) (p : ConnectionId) (ls : List NetworkLabel) : Prop :=
  ∀ content, NetworkLabel.openUni p content ∈ ls → content.bytes ≠ [] →
    content.ending = .finished ∧ ∃ (g : Nat) (group : List Bytes), video.groups[g]? = some group ∧
      content.bytes = groupBytes g group

/-- The content is that of a stream to a subscriber on which nothing has failed; the task has
relayed the group `g` that came on the connection `p`, and has returned. -/
def ArrivedWhole (n : Network) (p : ConnectionId) (g : Nat) (content : ByteStream) : Prop :=
  ∃ (i : Nat) (t : DataStreamTask) (reader : DataReader) (s : StreamId) (d : Downstream),
    n.world.dataStreams[i]? = some t ∧ n.readers[i]? = some reader ∧ reader.connection = p ∧
    t.header.groupId = g.toUInt64 ∧ t.pc = .returned ∧ s ∈ t.opened ∧ s ∉ reader.failed ∧
    n.world.streams[s]? = some d ∧ content.bytes = d.bytes

/-- A group has an ID of its own. -/
theorem eq_of_toUInt64_eq {video : Video} (hids : video.groups.length ≤ 2 ^ 64) {g g' : Nat}
    {group group' : List Bytes} (hgroup : video.groups[g]? = some group)
    (hgroup' : video.groups[g']? = some group') (h : g.toUInt64 = g'.toUInt64) : g = g' := by
  have hlt := (List.getElem?_eq_some_iff.mp hgroup).1
  have hlt' := (List.getElem?_eq_some_iff.mp hgroup').1
  have hmod := congrArg UInt64.toNat h
  change g % 2 ^ 64 = g' % 2 ^ 64 at hmod
  rwa [Nat.mod_eq_of_lt (by omega), Nat.mod_eq_of_lt (by omega)] at hmod

theorem ArrivedWhole.bytes {video : Video} {p : ConnectionId} {ls : List NetworkLabel} {g : Nat}
    {group : List Bytes} {content : ByteStream}
    (h : ArrivedWhole (network.run .new ls) p g content) (hsends : SendsWhole video p ls)
    (hids : video.groups.length ≤ 2 ^ 64) (hgroup : video.groups[g]? = some group) :
    content.bytes = groupBytes g group := by
  obtain ⟨i, t, reader, s, d, ht, hreader, hconn, hgroupId, hpc, hs, hok, hd, hcontent⟩ := h
  obtain ⟨upstream, hopen, hread⟩ := (sourced ls).readers i t reader ht hreader
  rw [hconn] at hopen
  obtain ⟨hending, g', group', hgroup', hbytes⟩ := hsends upstream hopen (content_ne_nil hread)
  obtain ⟨hheader, hraw, -⟩ := header_of_content hgroup' hread (hbytes ▸ List.prefix_rfl)
  rw [hheader] at hgroupId
  obtain rfl := eq_of_toUInt64_eq hids hgroup' hgroup hgroupId
  obtain rfl := Option.mem_unique hgroup hgroup'
  -- the relay has had the whole group to read
  have hsplit := (returns_readSubgroupHeader.mp hread).2
  rw [hsplit.1, hraw, hheader] at hbytes
  have hbody : reader.body.bytes = (group.map payloadObject).flatMap RawObject.bytes := by
    rw [List.append_cancel_left hbytes, List.flatMap_map]
    rfl
  have hforwarding := forwarding_of_reachable (network.reachable_run ls)
  obtain ⟨hreads, hopened, hphase⟩ := hforwarding.relaying i t reader ht hreader
  have hproperties : reader.hasProperties = false := by
    rw [hreads.properties, hheader]
    rfl
  have hcomplete : Complete reader (group.map payloadObject) := by
    refine ⟨?_, hbody, hsplit.2 ▸ hending⟩
    rw [hproperties]
    exact (payloadGroup g' group (Video.length_lt hgroup)).framed
  rw [Phase, hpc] at hphase
  rcases hphase with hdrained | ⟨hend, ws, heven⟩ | hdropping
  · rw [hdrained.opened] at hs
    cases hs
  · obtain ⟨session, hd'⟩ := heven.carry s ((heven.alive.mem s).mpr ⟨hs, hok⟩)
    obtain rfl := Option.mem_unique hd hd'
    obtain ⟨htaken, -⟩ := hcomplete.taken hreads (by simp [hend])
    rw [hcontent, Downstream.bytes, hheader, htaken, groupBytes, List.flatMap_map]
    rfl
  · obtain ⟨-, hend⟩ := hcomplete.taken hreads (by simp [hdropping.broken])
    rw [hdropping.broken] at hend
    cases hend

end Moqt.System
