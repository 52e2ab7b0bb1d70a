import Moqt.Relay.Answer
import Moqt.Relay.Fidelity

/-! Objects for the first subscriber of a track.  A publisher that has answered SUBSCRIBE_OK may
open data streams at once, and what the relay does with these is settled when `handle_data_stream`
looks for subscribers, whether `handle_subscribe` has recorded the subscription by then or not. -/

namespace Moqt.Relay

open Library Wire

namespace Network

variable (n : Network)

/-- The connection of the session is open; a session has the number of its connection. -/
def Connected (id : SessionId) : Prop := ∃ link ∈ n.links[id]?, link.closed = false

/-- A stream under the alias that was opened on the connection `c`, after `answers`, is owed to the
subscriber of `k`, who is connected: its SUBSCRIBE went to `c`, and was answered with this alias. -/
def Owes (c : ConnectionId) (answers : List Answer) (trackAlias : UInt64) (k : RequestId) : Prop :=
  promised answers k = some trackAlias ∧ n.Asks c k ∧ ∃ t ∈ n.world.task k, n.Connected t.session

/-- A stream of the connection `c` is owed to some subscriber. -/
def Awaited (c : ConnectionId) (stream : UniStream) : Prop :=
  ∃ header ∈ stream.header, ∃ a ∈ stream.answers, n.Owes c stream.answers header.trackAlias a.1

/-- The subscription of `k` is recorded, and neither its subscriber nor its publisher has been
removed. -/
def Records (c : ConnectionId) (k : RequestId) : Prop :=
  c ∈ n.world.state.sessions ∧
    ∃ t ∈ n.world.task k, t.Recorded k ∧ t.session ∈ n.world.state.sessions

instance (id : SessionId) : Decidable (n.Connected id) :=
  inferInstanceAs (Decidable (∃ link ∈ n.links[id]?, link.closed = false))

instance (c : ConnectionId) (answers : List Answer) (trackAlias : UInt64) (k : RequestId) :
    Decidable (n.Owes c answers trackAlias k) :=
  inferInstanceAs (Decidable (_ ∧ _ ∧ ∃ t ∈ n.world.task k, n.Connected t.session))

instance (c : ConnectionId) (stream : UniStream) : Decidable (n.Awaited c stream) :=
  inferInstanceAs (Decidable (∃ header ∈ stream.header, ∃ a ∈ stream.answers, n.Owes _ _ _ _))

instance (c : ConnectionId) (k : RequestId) : Decidable (n.Records c k) :=
  inferInstanceAs (Decidable (_ ∧ ∃ t ∈ n.world.task k, t.Recorded k ∧ _))

end Network

/-- The streams to the session could be opened, and nothing has failed on them. -/
structure DataReader.Succeeds (reader : DataReader) (streams : List Downstream)
    (session : MoqtSession) : Prop where
  opens : ∀ p ∈ reader.subSessions.zip reader.opens, p.1 = session → p.2 = true
  writes : ∀ s ∈ reader.failed, ∀ d ∈ streams[s]?, d.session ≠ session

/-- The stream carries every object of the publisher's stream. -/
def Downstream.CarriesAll (d : Downstream) (reader : DataReader) : Prop :=
  ∀ (objects : List RawObject) (rest : ByteStream),
    (∀ o ∈ objects, o.Framed reader.hasProperties) →
      reader.body.Splits (objects.flatMap RawObject.bytes) rest → objects <+: d.objects

/-- A stream that is owed to a subscriber is accepted when it comes to be the next one, and its task
returns, with every object written to a stream to that subscriber. -/
structure Delivered (n : Network) : Prop where
  waiting : ∀ (c : ConnectionId) (link : Link) (stream : UniStream), n.links[c]? = some link →
    stream ∈ link.uni → n.Awaited c stream → ∃ conn, n.world.connections[c]? = some conn ∧
      conn.status = .looping
  accepted : ∀ (c : ConnectionId) (link : Link) (stream : UniStream), n.links[c]? = some link →
    link.uni.head? = some stream → n.Awaited c stream →
      ∃ header n', network.step n (.relay (.event c (.dataStream header))) = some n'
  returns : ∀ (i : Nat) (t : DataStreamTask) (reader : DataReader),
    n.world.dataStreams[i]? = some t → n.readers[i]? = some reader → n.world.LetsTurn t →
      ∀ oks, reader.work n.world t ≤ oks.length →
        (network.follow (Network.turn i) n oks).Returned i
  written : ∀ (i : Nat) (t : DataStreamTask) (reader : DataReader) (k : RequestId)
    (u : SubscribeTask), n.world.dataStreams[i]? = some t → n.readers[i]? = some reader →
      n.world.task k = some u → n.Owes reader.connection reader.answers t.header.trackAlias k →
        reader.Succeeds n.world.streams ⟨u.session⟩ → t.pc = .returned →
          ∃ s ∈ t.opened, ∃ d, n.world.streams[s]? = some d ∧ d.session = ⟨u.session⟩ ∧
            d.header = t.header ∧ d.CarriesAll reader

/-- When a stream is looked up, what is owed to a subscriber has been recorded, and the loop of a
connection goes on while the publisher has such a stream to be accepted. -/
def Prepared (n : Network) : NetworkLabel → Prop
  | .relay (.dataStream i .proceed) => ∀ t ∈ n.world.dataStreams[i]?, ∀ reader ∈ n.readers[i]?,
      t.pc = .lookup → ∀ a ∈ reader.answers,
        n.Owes reader.connection reader.answers t.header.trackAlias a.1 →
          n.Records reader.connection a.1
  | .relay (.eventError c) => ∀ link ∈ n.links[c]?, ∀ stream ∈ link.uni, ¬n.Awaited c stream
  | .openUni c content => n.Awaited c ⟨content, n.answers⟩ →
      ∃ conn ∈ n.world.connections[c]?, conn.status = .looping
  | _ => True

instance (n : Network) : (l : NetworkLabel) → Decidable (Prepared n l)
  | .relay (.dataStream i .proceed) => inferInstanceAs (Decidable (∀ t ∈ n.world.dataStreams[i]?,
      ∀ reader ∈ n.readers[i]?, t.pc = .lookup → ∀ a ∈ reader.answers, n.Owes _ _ _ _ →
        n.Records _ _))
  | .relay (.eventError c) => inferInstanceAs (Decidable (∀ link ∈ n.links[c]?,
      ∀ stream ∈ link.uni, ¬n.Awaited c stream))
  | .openUni c content => inferInstanceAs (Decidable (n.Awaited c ⟨content, n.answers⟩ →
      ∃ conn ∈ n.world.connections[c]?, conn.status = .looping))
  | .relay (.dataStream _ (.opened _)) | .relay (.dataStream _ (.wrote _))
  | .relay (.dataStream _ (.responded _ _)) | .relay (.dataStream _ (.response _))
  | .relay (.dataStream _ (.object _)) | .relay .connect | .relay (.event _ _)
  | .relay (.removeSession _) | .relay (.publishNamespace _ _) | .relay (.subscribe _ _)
  | .openBi _ _ | .close _ | .answer _ _ => isTrue trivial

/-! ### What is owed -/

/-- A data stream that is the next one can be accepted. -/
theorem Network.accepts {n : Network} {c : ConnectionId} {link : Link} {stream : UniStream}
    {header : SubgroupHeader} {conn : Connection} (hlink : n.links[c]? = some link)
    (hhead : link.uni.head? = some stream) (hheader : stream.header = some header)
    (hconn : n.world.connections[c]? = some conn) (hstatus : conn.status = .looping) :
    ∃ n', network.step n (.relay (.event c (.dataStream header))) = some n' := by
  obtain ⟨uni, huni⟩ := List.head?_eq_some_iff.mp hhead
  obtain ⟨headerBytes, body, hreturns⟩ := UniStream.header_eq_some.mp hheader
  have hread : readSubgroupHeader stream.content = .ok ((header, headerBytes), body) := hreturns
  show ∃ n', n.step (.relay (.event c (.dataStream header))) = some n'
  simp [Network.step, Network.deliver, hlink, Link.accept, huni, hread, Except.toOption,
    Relay.relay, World.step, World.event, hconn, hstatus, Network.updateLink]

/-- A connection that is open was open before. -/
theorem Network.Connected.before {n n' : Network} {l : NetworkLabel} {id : SessionId}
    (h : n'.Connected id) (hlinked : Linked n) (hid : id < n.world.connections.length)
    (hstep : NetworkStep n l n') : n.Connected id := by
  obtain ⟨link', hlink', hopen⟩ := h
  rcases hstep.linkMove hlink' with ⟨link, hlink, hmove⟩ | ⟨-, rfl, -⟩
  · exact ⟨link, hlink, hmove.closed hopen⟩
  · rw [hlinked] at hid
    exact absurd hid (Nat.lt_irrefl _)

/-- What is owed after a step was owed before. -/
theorem Network.Owes.before {n n' : Network} {l : NetworkLabel} {c : ConnectionId}
    {answers : List Answer} {trackAlias : UInt64} {k : RequestId}
    (h : n'.Owes c answers trackAlias k) (hreachable : network.Reachable n)
    (hstep : NetworkStep n l n') (hanswers : answers <+: n.answers) :
    n.Owes c answers trackAlias k := by
  obtain ⟨hpromised, hasks, t', ht', hconnected⟩ := h
  obtain ⟨message, hmem⟩ := mem_of_promised hpromised
  have hmem := hanswers.subset hmem
  obtain ⟨t, ht, -, hsession⟩ := (answers_of_reachable hreachable).taskBefore hstep hmem ht'
  have hknown := known_of_reachable (reachable_world hreachable)
  have hid : t.session < n.world.connections.length := by
    rw [← hknown.numbered.next]
    exact hknown.subscribers k t ht
  refine ⟨hpromised, hasks.before (answers_of_reachable hreachable) hstep hmem, t, ht, ?_⟩
  rw [hsession] at hconnected
  exact hconnected.before (linked_of_reachable hreachable) hid hstep

theorem Network.Awaited.before {n n' : Network} {l : NetworkLabel} {c : ConnectionId}
    {stream : UniStream} (h : n'.Awaited c stream) (hreachable : network.Reachable n)
    (hstep : NetworkStep n l n') (hanswers : stream.answers <+: n.answers) :
    n.Awaited c stream := by
  obtain ⟨header, hheader, a, ha, howes⟩ := h
  exact ⟨header, hheader, a, ha, howes.before hreachable hstep hanswers⟩

/-- A recorded subscription is found by its publisher and alias. -/
theorem Network.Records.found {n : Network} {c : ConnectionId} {answers : List Answer}
    {trackAlias : UInt64} {k : RequestId} {u : SubscribeTask} (h : n.Records c k)
    (hreachable : network.Reachable n) (hanswers : answers <+: n.answers)
    (howes : n.Owes c answers trackAlias k) (hu : n.world.task k = some u) :
    ⟨u.session⟩ ∈ n.world.state.findSubscriberSessions c trackAlias := by
  have hknown := known_of_reachable (reachable_world hreachable)
  obtain ⟨hc, u₁, hu₁, hrecorded, hsession⟩ := h
  obtain rfl := Option.mem_unique hu hu₁
  obtain ⟨hpromised, hasks, -⟩ := howes
  have hsubscribed : n.world.Subscribed k k := by
    obtain ⟨u₂, hu₂, publisher, hpublisher, rfl⟩ := hasks
    obtain rfl := Option.mem_unique hu hu₂
    rw [hknown.handles k u hu publisher hpublisher] at hc
    exact ⟨u, hu, hrecorded, hsession, u, hu, publisher, hpublisher, hc⟩
  obtain ⟨-, track, sub, hsub, hpublisher, halias, he⟩ :=
    hsubscribed.lists hreachable hanswers hpromised hasks hu
  obtain ⟨handle, hhandle⟩ := Option.isSome_iff_exists.mp (AList.lookup_isSome.mpr hsession)
  obtain rfl : handle = ⟨u.session⟩ :=
    MoqtSession.ext (hknown.numbered.session _ _ hhandle)
  exact RelayState.mem_findSubscriberSessions.mpr
    ⟨track, sub, hsub, hpublisher, halias, _, he, hhandle⟩

/-! ### Runs -/

/-- The task of a data stream relays for the session of the stream's connection. -/
def SentOn (n : Network) : Prop :=
  ∀ (i : Nat) (t : DataStreamTask) (reader : DataReader), n.world.dataStreams[i]? = some t →
    n.readers[i]? = some reader → t.senderSession = reader.connection

theorem sentOn_of_reachable {n : Network} (h : network.Reachable n) : SentOn n := by
  refine h.induction (fun i t reader ht => by simp [network, Network.new, World.new] at ht) ?_
  intro n l n' hreachable hn hstep i t' reader' ht' hreader'
  cases (NetworkStep.of_step hstep).taskOrigin (forwarding_of_reachable hreachable).length ht'
    hreader' with
  | kept ht hreader => exact hn i t' reader' ht hreader
  | accepted hlink hstream hconn hread ht' hreader' =>
    subst ht' hreader'
    exact (known_of_reachable (reachable_world hreachable)).numbered.sessionId _ _ hconn
  | @moved t reader input hl ht hreader hdata hmoves =>
    obtain ⟨t₁, ht₁, hmove⟩ := hdata.move ht
    obtain rfl := Option.mem_unique ht' ht₁
    rw [hmove.senderSession, hmoves.origin.1]
    exact hn i t reader ht hreader

/-- The streams that are owed are in front of a loop, or have been looked up with their
subscriber. -/
structure Prompt (n : Network) : Prop where
  waiting : ∀ (c : ConnectionId) (link : Link) (stream : UniStream), n.links[c]? = some link →
    stream ∈ link.uni → n.Awaited c stream → ∃ conn, n.world.connections[c]? = some conn ∧
      conn.status = .looping
  found : ∀ (i : Nat) (t : DataStreamTask) (reader : DataReader) (k : RequestId)
    (u : SubscribeTask), n.world.dataStreams[i]? = some t → n.readers[i]? = some reader →
      t.pc ≠ .lookup → n.world.task k = some u →
        n.Owes reader.connection reader.answers t.header.trackAlias k →
          ⟨u.session⟩ ∈ reader.subSessions

theorem Prompt.new : Prompt network.init where
  waiting c link stream hlink := by simp [network, Network.new] at hlink
  found i t reader k u ht := by simp [network, Network.new, World.new] at ht

/-- The first step of a task is the lookup. -/
theorem Advance.looksUp {w : World} {t t' : DataStreamTask} {reader reader' : DataReader}
    {input : Input} {streams' : List Downstream}
    (h : Advance w t reader input t' reader' streams') (hpc : t.pc = .lookup) :
    input = .proceed ∧ reader'.subSessions =
      w.state.findSubscriberSessions t.senderSession t.header.trackAlias := by
  cases h with
  | lookup _ hsessions => exact ⟨rfl, hsessions⟩
  | _ => simp_all

/-- What has been found is not changed afterwards. -/
theorem DataReader.Moves.subSessions {reader reader' : DataReader} {w : World} {t : DataStreamTask}
    {input : Input} (h : reader.Moves w t input reader') (hpc : t.pc ≠ .lookup) :
    reader'.subSessions = reader.subSessions := by
  cases h with
  | object => exact reader.read_writers.1
  | observe =>
    unfold DataReader.observe
    split
    · exact absurd ‹t.pc = .lookup› hpc
    all_goals rfl

section Step

variable {n n' : Network} {l : NetworkLabel}

theorem Prompt.step_waiting (h : Prompt n) (hl : Prepared n l) (hreachable : network.Reachable n)
    (hstep : NetworkStep n l n') (c : ConnectionId) (link' : Link) (stream : UniStream)
    (hlink' : n'.links[c]? = some link') (hstream' : stream ∈ link'.uni)
    (hawaited : n'.Awaited c stream) :
    ∃ conn, n'.world.connections[c]? = some conn ∧ conn.status = .looping := by
  rcases hstep.linkMove hlink' with ⟨link, hlink, hmove⟩ | ⟨-, -, rfl⟩
  · rcases hmove.uni stream hstream' with hold | ⟨rfl, hanswers⟩
    · have hfront := (answers_of_reachable hreachable).waiting c link stream hlink hold
      have hawaited₀ := hawaited.before hreachable hstep hfront
      obtain ⟨conn, hconn, hstatus⟩ := h.waiting c link stream hlink hold hawaited₀
      rcases hstep.world with ⟨l', rfl, hworld⟩ | ⟨-, hsame⟩
      · refine (Step.of_step hworld).stillLooping hconn hstatus ?_
        rintro rfl
        exact hl link hlink stream hold hawaited₀
      · exact ⟨conn, by rw [hsame, hconn], hstatus⟩
    · have hawaited₀ := hawaited.before hreachable hstep (by rw [hanswers])
      obtain ⟨content, answers⟩ := stream
      obtain rfl : answers = n.answers := hanswers
      obtain ⟨conn, hconn, hstatus⟩ := hl hawaited₀
      rcases hstep.world with ⟨l', hl', -⟩ | ⟨-, hsame⟩
      · cases hl'
      · exact ⟨conn, by rw [hsame]; exact hconn, hstatus⟩
  · cases hstream'

theorem Prompt.step_found (h : Prompt n) (hl : Prepared n l) (hreachable : network.Reachable n)
    (hstep : NetworkStep n l n') (i : Nat) (t' : DataStreamTask) (reader' : DataReader)
    (k : RequestId) (u' : SubscribeTask) (ht' : n'.world.dataStreams[i]? = some t')
    (hreader' : n'.readers[i]? = some reader') (hpc' : t'.pc ≠ .lookup)
    (hu' : n'.world.task k = some u')
    (howes' : n'.Owes reader'.connection reader'.answers t'.header.trackAlias k) :
    ⟨u'.session⟩ ∈ reader'.subSessions := by
  have hanswers := answers_of_reachable hreachable
  -- the subscriber is the one that it was before
  have before {c : ConnectionId} {answers : List Answer} {trackAlias : UInt64}
      (hfront : answers <+: n.answers) (howes : n'.Owes c answers trackAlias k) :
      ∃ u, n.world.task k = some u ∧ u'.session = u.session ∧ n.Owes c answers trackAlias k := by
    obtain ⟨message, hmem⟩ := mem_of_promised howes.1
    obtain ⟨u, hu, -, hsession⟩ := hanswers.taskBefore hstep (hfront.subset hmem) hu'
    exact ⟨u, hu, hsession, howes.before hreachable hstep hfront⟩
  cases hstep.taskOrigin (forwarding_of_reachable hreachable).length ht' hreader' with
  | kept ht hreader =>
    obtain ⟨u, hu, hsession, howes⟩ := before (hanswers.readers i reader' hreader) howes'
    rw [hsession]
    exact h.found i t' reader' k u ht hreader hpc' hu howes
  | accepted hlink hstream hconn hread ht' hreader' =>
    rw [ht'] at hpc'
    exact absurd rfl hpc'
  | @moved t reader input hlabel ht hreader hdata hmoves =>
    obtain ⟨t₁, ht₁, hmove⟩ := hdata.move ht
    obtain rfl := Option.mem_unique ht' ht₁
    rw [hmoves.origin.1, hmoves.origin.2, hmove.header] at howes'
    have hfront := hanswers.readers i reader hreader
    obtain ⟨u, hu, hsession, howes⟩ := before hfront howes'
    rw [hsession]
    by_cases hpc : t.pc = .lookup
    · obtain ⟨rfl, hsubs⟩ := (hdata.advance ht ht' hmoves).looksUp hpc
      subst hlabel
      obtain ⟨message, hmem⟩ := mem_of_promised howes.1
      have hrecords := hl t ht reader hreader hpc _ hmem howes
      rw [hsubs, sentOn_of_reachable hreachable i t reader ht hreader]
      exact hrecords.found hreachable hfront howes hu
    · rw [hmoves.subSessions hpc]
      exact h.found i t reader k u ht hreader hpc hu howes

end Step

theorem Prompt.step {n n' : Network} {l : NetworkLabel} (h : Prompt n) (hl : Prepared n l)
    (hreachable : network.Reachable n) (hstep : NetworkStep n l n') : Prompt n' where
  waiting := h.step_waiting hl hreachable hstep
  found := h.step_found hl hreachable hstep

/-- Objects that the stream begins with have been taken, if there is none to be read. -/
theorem Reads.front_taken {t : DataStreamTask} {reader : DataReader} (h : Reads t reader)
    (hend : ∀ o, reader.read.1 ≠ some (some o)) {objects : List RawObject} {rest : ByteStream}
    (hobjects : ∀ o ∈ objects, o.Framed reader.hasProperties)
    (hsplit : reader.body.Splits (objects.flatMap RawObject.bytes) rest) :
    objects <+: reader.taken := by
  rcases RawObject.front_or_next h.taken hobjects h.rest hsplit with
    hfront | ⟨o, more, rest', hframed, -, hnext⟩
  · exact hfront
  · exact absurd (DataReader.read_of_framed hframed hnext) (hend o)

/-- A task that has returned has written every object to every stream that it could. -/
theorem Relaying.written {streams : List Downstream} {t : DataStreamTask} {reader : DataReader}
    {session : MoqtSession} (h : Relaying streams t reader) (hpc : t.pc = .returned)
    (hfound : session ∈ reader.subSessions) (hsucceeds : reader.Succeeds streams session) :
    ∃ s ∈ t.opened, ∃ d, streams[s]? = some d ∧ d.session = session ∧ d.header = t.header ∧
      d.CarriesAll reader := by
  obtain ⟨hreads, hopened, hphase⟩ := h
  have written {ws : List StreamId} (htried : reader.subSessions.length = reader.opens.length)
      (halive : Alive t reader ws) (hcarry : CarryAll streams t.header ws reader.taken)
      (hend : ∀ o, reader.read.1 ≠ some (some o)) :
      ∃ s ∈ t.opened, ∃ d, streams[s]? = some d ∧ d.session = session ∧ d.header = t.header ∧
        d.CarriesAll reader := by
    have hgranted : session ∈ reader.granted :=
      DataReader.mem_granted hfound htried hsucceeds.opens
    obtain ⟨s, hs, d, hd, hsession, hheader⟩ := hopened.stream hgranted
    have hok : s ∉ reader.failed := fun hfailed => hsucceeds.writes s hfailed d hd hsession
    obtain ⟨session', finished, hd'⟩ := hcarry s ((halive.mem s).mpr ⟨hs, hok⟩)
    obtain rfl := Option.mem_unique hd hd'
    exact ⟨s, hs, _, hd, hsession, hheader, fun objects rest hobjects hsplit =>
      hreads.front_taken hend hobjects hsplit⟩
  rw [Phase, hpc] at hphase
  rcases hphase with hdrained | ⟨hend, ws, heven⟩ | hdropping
  · rw [hdrained.nobody] at hfound
    cases hfound
  · exact written heven.tried heven.alive heven.carry.all (by simp [hend])
  · exact written hdropping.tried hdropping.alive hdropping.carry (by simp [hdropping.broken])

theorem Prompt.delivered {n : Network} (h : Prompt n) (hreachable : network.Reachable n) :
    Delivered n where
  waiting := h.waiting
  accepted c link stream hlink hhead hawaited := by
    obtain ⟨conn, hconn, hstatus⟩ :=
      h.waiting c link stream hlink (List.mem_of_mem_head? hhead) hawaited
    obtain ⟨header, hheader, -⟩ := hawaited
    exact ⟨header, Network.accepts hlink hhead hheader hconn hstatus⟩
  returns i t reader ht hreader hfree oks hwork :=
    Network.returned_of_turns (forwarding_of_reachable hreachable) ht hreader hfree hwork
  written i t reader k u ht hreader hu howes hsucceeds hpc := by
    have hfound := h.found i t reader k u ht hreader (by rw [hpc]; nofun) hu howes
    exact ((forwarding_of_reachable hreachable).relaying i t reader ht hreader).written hpc hfound
      hsucceeds

/-- The publisher opens a stream right after its SUBSCRIBE_OK, and the stream is looked up before
the SUBSCRIBE_OK is read. -/
def aheadOfRecord : List NetworkLabel :=
  [NetworkLabel.relay .connect, .relay .connect] ++ Schedule.publish 0 0 ++ Schedule.request 1 0 ++
    ([.subscribe 0 .proceed, .subscribe 0 (.opened true), .subscribe 0 (.wrote true)] :
      List Label).map NetworkLabel.relay ++ [NetworkLabel.answer 0 (.subscribeOk ⟨7, [], []⟩)] ++
    Schedule.stream 0 { bytes := [0x10, 7, 2, 128, 0, 1, 97], ending := .finished } ++
    ([.proceed, .object (some (some ⟨[0, 1], [97]⟩)), .object (some none)] : List Input).map
      fun input => NetworkLabel.relay (.dataStream 0 input)

end Moqt.Relay
