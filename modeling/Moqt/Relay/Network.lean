import Moqt.Relay.DataStream
import Moqt.Wire.Object

/-! The relay between its peers.  A peer opens streams, each with what it will deliver and how it
will end, closes its connection, and answers the requests that the relay has sent to it; what the
steps of the relay are told about streams is what they find on these.  Whether a stream to a
subscriber can be opened, and whether a write ends well, stays an input. -/

namespace Moqt.Relay

open Library Wire

/-! ### What next_event reads -/

/-- The branch of `next_event` for a bidirectional stream. -/
def requestEvent : Reader SessionEvent := do
  match ← readMessage with
  | .subscribe sub => return .subscribe sub
  | .publishNamespace publishNamespace => return .publishNamespace publishNamespace
  | _ => Reader.fail (.error "unexpected message on request stream")

/-- The branch for a unidirectional stream. -/
def dataStreamEvent : Reader SessionEvent := do
  let (header, _) ← readSubgroupHeader
  return .dataStream header

/-- The read ends with `Err`. -/
def errs {α : Type} (x : Reader α) (s : ByteStream) : Bool :=
  match x s with
  | .ok _ => false
  | .error e => !e.isPanic

/-! ### Peers -/

/-- A message that was sent on the request stream of an upstream SUBSCRIBE. -/
abbrev Answer := RequestId × RequestMessage

/-- A data stream that a peer has opened, and the answers that had been sent before. -/
structure UniStream where
  content : ByteStream
  answers : List Answer
deriving DecidableEq, Repr

/-- The header that the stream begins with. -/
def UniStream.header (stream : UniStream) : Option SubgroupHeader :=
  (readSubgroupHeader stream.content).toOption.map (·.1.1)

/-- The streams that the peer of a connection has opened and that have not been accepted yet. -/
structure Link where
  bi : List ByteStream := []
  uni : List UniStream := []
  closed : Bool := false
deriving DecidableEq, Repr

/-- The reader of a `handle_data_stream` task, with what it has read, and what its writers met. -/
structure DataReader where
  connection : ConnectionId
  answers : List Answer
  hasProperties : Bool
  /-- The bytes of the header, and what the stream carried behind them. -/
  headerBytes : Bytes
  body : ByteStream
  /-- What has not been read, and the objects that have. -/
  rest : ByteStream
  taken : List RawObject := []
  subSessions : List MoqtSession := []
  opens : List Bool := []
  failed : List StreamId := []
deriving DecidableEq, Repr

/-- `next_event` accepts the next stream, and reads the event from it. -/
def Link.accept (link : Link) (c : ConnectionId) (event : SessionEvent) :
    Option (Link × List DataReader) :=
  match event with
  | .dataStream header =>
    match link.uni with
    | [] => none
    | stream :: uni => do
      let ((header', headerBytes), body) ← (readSubgroupHeader stream.content).toOption
      guard (header' = header)
      return ({ link with uni }, [{
        connection := c
        answers := stream.answers
        hasProperties := header.hasProperties
        headerBytes, body, rest := body }])
  | event =>
    match link.bi with
    | [] => none
    | stream :: bi => do
      let (event', _) ← (requestEvent stream).toOption
      guard (event' = event)
      return ({ link with bi }, [])

/-- `next_event` returns `Err`: the connection has closed, or the stream that it has accepted does
not begin with what it has to. -/
def Link.errs (link : Link) : Bool :=
  link.closed || link.bi.head?.any (Relay.errs requestEvent) ||
    link.uni.head?.any fun stream => Relay.errs dataStreamEvent stream.content

namespace DataReader

/-- `read_object_raw` -/
def read (reader : DataReader) : Option (Option RawObject) × DataReader :=
  match readObject reader.hasProperties reader.rest with
  | .ok (some (_, payload, headerBytes), rest) =>
    (some (some { headerBytes, payload }),
      { reader with rest, taken := reader.taken ++ [{ headerBytes, payload }] })
  | .ok (none, _) => (some none, reader)
  | .error _ => (none, reader)

/-- What the writers meet in a step of the task. -/
def observe (reader : DataReader) (w : World) (t : DataStreamTask) (input : Input) : DataReader :=
  match t.pc, input with
  | .lookup, .proceed =>
    { reader with
      subSessions := w.state.findSubscriberSessions t.senderSession t.header.trackAlias }
  | .openStreams _, .opened ok => { reader with opens := reader.opens ++ [ok] }
  | .writeObject _ (s :: _) _, .wrote false => { reader with failed := reader.failed ++ [s] }
  | .finish (s :: _), .wrote false => { reader with failed := reader.failed ++ [s] }
  | _, _ => reader

end DataReader

/-! ### The network -/

structure Network where
  world : World
  links : List Link
  readers : List DataReader
  /-- The answers that have been sent, and those of them that have not been read. -/
  answers : List Answer
  unread : List Answer

inductive NetworkLabel where
  | openBi (c : ConnectionId) (content : ByteStream)
  | openUni (c : ConnectionId) (content : ByteStream)
  | close (c : ConnectionId)
  | answer (k : RequestId) (message : RequestMessage)
  | relay (l : Label)
deriving DecidableEq, Repr

namespace Network

def new : Network where
  world := .new
  links := []
  readers := []
  answers := []
  unread := []

def updateLink (n : Network) (c : ConnectionId) (f : Link → Link) : Network :=
  { n with links := n.links.modify c f }

def updateReader (n : Network) (i : Nat) (f : DataReader → DataReader) : Network :=
  { n with readers := n.readers.modify i f }

/-- The peer of an open connection acts. -/
def act (n : Network) (c : ConnectionId) (f : Link → Link) : Option Network := do
  let link ← n.links[c]?
  guard (link.closed = false)
  return n.updateLink c f

/-- The publisher sends a message on a request stream that the relay has opened to it. -/
def answer (n : Network) (k : RequestId) (message : RequestMessage) : Option Network := do
  let t ← n.world.task k
  guard (t.upstreamRequest.isSome = true)
  return { n with answers := n.answers ++ [(k, message)], unread := n.unread ++ [(k, message)] }

/-- The part of the network in a step of the relay, if the network has what the step is told. -/
def deliver (n : Network) : Label → Option Network
  | .connect => some { n with links := n.links ++ [{}] }
  | .event c event => do
    let link ← n.links[c]?
    let (link, readers) ← link.accept c event
    return { n.updateLink c fun _ => link with readers := n.readers ++ readers }
  | .eventError c => do
    let link ← n.links[c]?
    guard (link.errs = true)
    return n
  | .subscribe k (.response (some message)) => do
    guard (n.unread.find? (·.1 = k) = some (k, message))
    return { n with unread := n.unread.erase (k, message) }
  | .dataStream i (.object read) => do
    let reader ← n.readers[i]?
    guard (reader.read.1 = read)
    return n.updateReader i fun _ => reader.read.2
  | .dataStream i input => do
    let t ← n.world.dataStreams[i]?
    let reader ← n.readers[i]?
    return n.updateReader i fun _ => reader.observe n.world t input
  | _ => some n

def step (n : Network) : NetworkLabel → Option Network
  | .openBi c content => n.act c fun link => { link with bi := link.bi ++ [content] }
  | .openUni c content =>
    n.act c fun link => { link with uni := link.uni ++ [⟨content, n.answers⟩] }
  | .close c => n.act c fun link => { link with closed := true }
  | .answer k message => n.answer k message
  | .relay l => do
    let n ← n.deliver l
    let world ← Relay.relay.step n.world l
    return { n with world }

end Network

/-- The relay with its peers, from the moment that `Relay::new` returns. -/
def network : Machine Network NetworkLabel where
  init := .new
  step := Network.step

/-! ### Schedules -/

namespace Schedule

/-- The connection `c` has the namespace `[01]` accepted, by the task `i`. -/
def publish (c : ConnectionId) (i : Nat) : List NetworkLabel :=
  .openBi c { bytes := [6, 0, 6, 0, 0, 1, 1, 1, 0], ending := .finished } ::
    (announce c i ⟨[[1]]⟩).map .relay

/-- The connection `c` subscribes to the track `a`; the task `k` runs through the aggregation. -/
def request (c : ConnectionId) (k : RequestId) : List NetworkLabel :=
  .openBi c { bytes := [3, 0, 8, 0, 0, 1, 1, 1, 1, 97, 0], ending := .finished } ::
    (ask c k ⟨[[1]]⟩ [97]).map .relay

/-- The task `k` subscribes upstream, and is answered with the alias 7. -/
def upstream (k : RequestId) : List NetworkLabel :=
  ([.subscribe k .proceed, .subscribe k (.opened true), .subscribe k (.wrote true)] :
    List Label).map NetworkLabel.relay ++
    [NetworkLabel.answer k (.subscribeOk ⟨7, [], []⟩),
      .relay (.subscribe k (.response (some (.subscribeOk ⟨7, [], []⟩))))]

/-- The task `k` records the subscription, and forwards SUBSCRIBE_OK. -/
def establish (k : RequestId) : List NetworkLabel :=
  [.relay (.subscribe k .proceed), .relay (.subscribe k (.responded k true))]

/-- The connection `c` opens a data stream under the alias 7, with the given bytes behind the
header. -/
def stream (c : ConnectionId) (content : ByteStream) : List NetworkLabel :=
  [.openUni c content, .relay (.event c (.dataStream ⟨7, 2, false, false, none, some 128⟩))]

theorem oneObject_fits : ([0x10, 7, 2, 128, 0, 1, 97] : List UInt8).length < 2 ^ 62 := by decide

end Schedule

/-- A subscriber is relayed a stream that carries `content` behind its header. -/
def relayTo (content : ByteStream) (inputs : List Input) : List NetworkLabel :=
  [NetworkLabel.relay .connect, .relay .connect] ++ Schedule.publish 0 0 ++ Schedule.request 1 0 ++
    Schedule.upstream 0 ++ Schedule.establish 0 ++ Schedule.stream 0 content ++
    (Input.proceed :: .opened true :: .proceed :: inputs).map
      fun input => NetworkLabel.relay (.dataStream 0 input)

/-! ### Steps -/

/-- `next_event` accepts a stream: a request, or a data stream, for which there is a reader then. -/
inductive Link.Accepts (link : Link) (c : ConnectionId) :
    SessionEvent → Link → List DataReader → Prop
  | request {event : SessionEvent} {stream rest : ByteStream} {bi : List ByteStream}
      (hbi : link.bi = stream :: bi) (hread : requestEvent.Returns stream event rest) :
    Accepts link c event { link with bi } []
  | dataStream {header : SubgroupHeader} {stream : UniStream} {uni : List UniStream}
      {headerBytes : Bytes} {body : ByteStream} (huni : link.uni = stream :: uni)
      (hread : readSubgroupHeader.Returns stream.content (header, headerBytes) body) :
    Accepts link c (.dataStream header) { link with uni } [{
      connection := c
      answers := stream.answers
      hasProperties := header.hasProperties
      headerBytes, body, rest := body }]

/-- A request is not a data stream. -/
theorem requestEvent_ne_dataStream {s t : ByteStream} {header : SubgroupHeader} :
    ¬requestEvent.Returns s (.dataStream header) t := by
  intro h
  simp only [requestEvent, Reader.returns_bind] at h
  obtain ⟨message, mid, -, h⟩ := h
  cases message <;> simp at h

theorem UniStream.header_eq_some {stream : UniStream} {header : SubgroupHeader} :
    stream.header = some header ↔
      ∃ headerBytes body, readSubgroupHeader.Returns stream.content (header, headerBytes) body := by
  simp only [UniStream.header, Option.map_eq_some_iff, Prod.exists, Reader.toOption_eq_some]
  constructor
  · rintro ⟨_, headerBytes, body, hreturns, rfl⟩
    exact ⟨headerBytes, body, hreturns⟩
  · rintro ⟨headerBytes, body, hreturns⟩
    exact ⟨header, headerBytes, body, hreturns, rfl⟩

theorem Link.accepts_of_accept {link link' : Link} {c : ConnectionId} {event : SessionEvent}
    {readers : List DataReader} (h : link.accept c event = some (link', readers)) :
    link.Accepts c event link' readers := by
  unfold Link.accept at h
  split at h
  · split at h
    · cases h
    next stream uni huni =>
      simp only [Option.bind_eq_bind, Option.bind_eq_some_iff, Option.guard_eq_some', exists_const,
        Option.pure_def, Option.some.injEq, Prod.mk.injEq, Prod.exists,
        Reader.toOption_eq_some] at h
      obtain ⟨header, headerBytes, body, hread, rfl, rfl, rfl⟩ := h
      exact .dataStream huni hread
  · split at h
    · cases h
    next stream bi hbi =>
      simp only [Option.bind_eq_bind, Option.bind_eq_some_iff, Option.guard_eq_some', exists_const,
        Option.pure_def, Option.some.injEq, Prod.mk.injEq, Prod.exists,
        Reader.toOption_eq_some] at h
      obtain ⟨event, rest, hread, rfl, rfl, rfl⟩ := h
      exact .request hbi hread

/-- The part of the network in a step of the relay. -/
inductive Delivers (n : Network) : Label → Network → Prop
  | connect : Delivers n .connect { n with links := n.links ++ [{}] }
  | event {c : ConnectionId} {event : SessionEvent} {link link' : Link} {readers : List DataReader}
      (hlink : n.links[c]? = some link) (haccepts : link.Accepts c event link' readers) :
    Delivers n (.event c event)
      { n.updateLink c fun _ => link' with readers := n.readers ++ readers }
  | eventError {c : ConnectionId} {link : Link} (hlink : n.links[c]? = some link)
      (herrs : link.errs = true) : Delivers n (.eventError c) n
  | response {k : RequestId} {message : RequestMessage}
      (hunread : n.unread.find? (·.1 = k) = some (k, message)) :
    Delivers n (.subscribe k (.response (some message)))
      { n with unread := n.unread.erase (k, message) }
  | request {k : RequestId} {input : Input}
      (hinput : ∀ message, input ≠ .response (some message)) : Delivers n (.subscribe k input) n
  | object {i : Nat} {reader : DataReader} (hreader : n.readers[i]? = some reader) :
    Delivers n (.dataStream i (.object reader.read.1)) (n.updateReader i fun _ => reader.read.2)
  | observe {i : Nat} {t : DataStreamTask} {reader : DataReader} {input : Input}
      (hinput : ∀ read, input ≠ .object read) (ht : n.world.dataStreams[i]? = some t)
      (hreader : n.readers[i]? = some reader) : Delivers n (.dataStream i input)
      (n.updateReader i fun _ => reader.observe n.world t input)
  | publishNamespace (i : Nat) (input : Input) : Delivers n (.publishNamespace i input) n
  | removeSession (c : ConnectionId) : Delivers n (.removeSession c) n

theorem Delivers.of_deliver {n n' : Network} {l : Label} (h : n.deliver l = some n') :
    Delivers n l n' := by
  unfold Network.deliver at h
  split at h
  all_goals simp only [Option.bind_eq_bind, Option.bind_eq_some_iff, Option.guard_eq_some',
    exists_const, Option.pure_def, Option.some.injEq, Prod.exists] at h
  case h_1 =>
    subst h
    exact .connect
  case h_2 =>
    obtain ⟨link, hlink, link', readers, haccept, rfl⟩ := h
    exact .event hlink (Link.accepts_of_accept haccept)
  case h_3 =>
    obtain ⟨link, hlink, herrs, rfl⟩ := h
    exact .eventError hlink herrs
  case h_4 =>
    obtain ⟨hunread, rfl⟩ := h
    exact .response hunread
  case h_5 =>
    obtain ⟨reader, hreader, rfl, rfl⟩ := h
    exact .object hreader
  case h_6 hinput =>
    obtain ⟨t, ht, reader, hreader, rfl⟩ := h
    exact .observe hinput ht hreader
  case h_7 _ hconnect hevent herror hresponse hobject hdata =>
    subst h
    cases l with
    | connect => exact absurd rfl hconnect
    | event c event => exact absurd rfl (hevent c event)
    | eventError c => exact absurd rfl (herror c)
    | removeSession c => exact .removeSession c
    | publishNamespace i input => exact .publishNamespace i input
    | subscribe k input => exact .request fun message heq => hresponse k message (by rw [heq])
    | dataStream i input => exact absurd rfl (hdata i input)

theorem Delivers.world {n n' : Network} {l : Label} (h : Delivers n l n') : n'.world = n.world := by
  cases h <;> rfl

/-- What a step makes of the network, label by label. -/
inductive NetworkStep (n : Network) : NetworkLabel → Network → Prop
  | openBi {c : ConnectionId} {link : Link} (hlink : n.links[c]? = some link)
      (hopen : link.closed = false) (content : ByteStream) : NetworkStep n (.openBi c content)
      (n.updateLink c fun link => { link with bi := link.bi ++ [content] })
  | openUni {c : ConnectionId} {link : Link} (hlink : n.links[c]? = some link)
      (hopen : link.closed = false) (content : ByteStream) : NetworkStep n (.openUni c content)
      (n.updateLink c fun link => { link with uni := link.uni ++ [⟨content, n.answers⟩] })
  | close {c : ConnectionId} {link : Link} (hlink : n.links[c]? = some link)
      (hopen : link.closed = false) : NetworkStep n (.close c)
      (n.updateLink c fun link => { link with closed := true })
  | answer {k : RequestId} {t : SubscribeTask} (ht : n.world.task k = some t)
      (hsent : t.upstreamRequest.isSome = true) (message : RequestMessage) :
    NetworkStep n (.answer k message)
      { n with answers := n.answers ++ [(k, message)], unread := n.unread ++ [(k, message)] }
  | relay {l : Label} {n' : Network} {world : World} (hdelivers : Delivers n l n')
      (hstep : Relay.relay.step n.world l = some world) :
    NetworkStep n (.relay l) { n' with world }

theorem NetworkStep.of_step {n n' : Network} {l : NetworkLabel}
    (h : network.step n l = some n') : NetworkStep n l n' := by
  change n.step l = some n' at h
  cases l with
  | relay l =>
    simp only [Network.step, Option.bind_eq_bind, Option.bind_eq_some_iff, Option.pure_def,
      Option.some.injEq] at h
    obtain ⟨n₁, hdeliver, world, hworld, rfl⟩ := h
    have hdelivers := Delivers.of_deliver hdeliver
    rw [hdelivers.world] at hworld
    exact .relay hdelivers hworld
  | answer k message =>
    simp only [Network.step, Network.answer, Option.bind_eq_bind, Option.bind_eq_some_iff,
      Option.guard_eq_some', exists_const, Option.pure_def, Option.some.injEq] at h
    obtain ⟨t, ht, hsent, rfl⟩ := h
    exact .answer ht hsent message
  | openBi c content =>
    simp only [Network.step, Network.act, Option.bind_eq_bind, Option.bind_eq_some_iff,
      Option.guard_eq_some', exists_const, Option.pure_def, Option.some.injEq] at h
    obtain ⟨link, hlink, hopen, rfl⟩ := h
    exact .openBi hlink hopen content
  | openUni c content =>
    simp only [Network.step, Network.act, Option.bind_eq_bind, Option.bind_eq_some_iff,
      Option.guard_eq_some', exists_const, Option.pure_def, Option.some.injEq] at h
    obtain ⟨link, hlink, hopen, rfl⟩ := h
    exact .openUni hlink hopen content
  | close c =>
    simp only [Network.step, Network.act, Option.bind_eq_bind, Option.bind_eq_some_iff,
      Option.guard_eq_some', exists_const, Option.pure_def, Option.some.injEq] at h
    obtain ⟨link, hlink, hopen, rfl⟩ := h
    exact .close hlink hopen

/-- What a step makes of a reader, which is told what `input` says. -/
inductive DataReader.Moves (reader : DataReader) (w : World) (t : DataStreamTask) :
    Input → DataReader → Prop
  | object : Moves reader w t (.object reader.read.1) reader.read.2
  | observe {input : Input} (hinput : ∀ read, input ≠ .object read) :
    Moves reader w t input (reader.observe w t input)

theorem NetworkStep.moved {n n' : Network} {i : Nat} {input : Input}
    (h : NetworkStep n (.relay (.dataStream i input)) n') : ∃ t reader reader',
      n.world.dataStreams[i]? = some t ∧ n.readers[i]? = some reader ∧
        DataStreamStep n.world i t input n'.world ∧ reader.Moves n.world t input reader' ∧
        n'.readers = n.readers.modify i fun _ => reader' := by
  cases h with
  | relay hdelivers hstep =>
    cases Step.of_step hstep with
    | dataStream ht hdata =>
      cases hdelivers with
      | object hreader => exact ⟨_, _, _, ht, hreader, hdata, .object, rfl⟩
      | observe hinput ht₀ hreader =>
        obtain rfl := Option.mem_unique ht ht₀
        exact ⟨_, _, _, ht, hreader, hdata, .observe hinput, rfl⟩

/-- What a step makes of the data streams: nothing, a new one, or a step of one. -/
inductive DataChange (n n' : Network) (l : NetworkLabel) : Prop
  | same (hstreams : n'.world.streams = n.world.streams)
      (hdata : n'.world.dataStreams = n.world.dataStreams) (hreaders : n'.readers = n.readers)
  | accepted {c : ConnectionId} {conn : Connection} {link : Link} {header : SubgroupHeader}
      {stream : UniStream} {headerBytes : Bytes} {body : ByteStream}
      (hl : l = .relay (.event c (.dataStream header))) (hlink : n.links[c]? = some link)
      (hstream : link.uni.head? = some stream) (hconn : n.world.connections[c]? = some conn)
      (hread : readSubgroupHeader.Returns stream.content (header, headerBytes) body)
      (hstreams : n'.world.streams = n.world.streams)
      (hdata : n'.world.dataStreams =
        n.world.dataStreams ++ [{ senderSession := conn.sessionId, header }])
      (hreaders : n'.readers = n.readers ++ [{
        connection := c
        answers := stream.answers
        hasProperties := header.hasProperties
        headerBytes, body, rest := body }])
  | moved {i : Nat} {t : DataStreamTask} {reader reader' : DataReader} {input : Input}
      (hl : l = .relay (.dataStream i input)) (ht : n.world.dataStreams[i]? = some t)
      (hreader : n.readers[i]? = some reader) (hstep : DataStreamStep n.world i t input n'.world)
      (hmoves : reader.Moves n.world t input reader')
      (hreaders : n'.readers = n.readers.modify i fun _ => reader')

theorem NetworkStep.dataChange {n n' : Network} {l : NetworkLabel} (h : NetworkStep n l n') :
    DataChange n n' l := by
  have hmoved {i : Nat} {input : Input} (hl : l = .relay (.dataStream i input)) :
      DataChange n n' l := by
    subst hl
    obtain ⟨t, reader, reader', ht, hreader, hdata, hmoves, hreaders⟩ := h.moved
    exact .moved rfl ht hreader hdata hmoves hreaders
  cases h with
  | @relay l n₁ w' hdelivers hstep =>
    cases Step.of_step hstep with
    | dataStream ht hdata => exact hmoved rfl
    | event hconn hstatus event =>
      cases hdelivers with
      | event hlink haccepts =>
        cases haccepts with
        | request hbi hread =>
          cases event with
          | dataStream header => exact absurd hread requestEvent_ne_dataStream
          | _ => exact .same rfl rfl (List.append_nil _)
        | dataStream huni hread =>
          exact .accepted rfl hlink (by rw [huni]; rfl) hconn hread rfl rfl rfl
    | subscribe ht hsubscribe =>
      have hframe : w'.streams = n.world.streams ∧ w'.dataStreams = n.world.dataStreams := by
        cases hsubscribe <;> exact ⟨rfl, rfl⟩
      cases hdelivers <;> exact .same hframe.1 hframe.2 rfl
    | connect hfree => cases hdelivers; exact .same rfl rfl rfl
    | eventError hconn hstatus => cases hdelivers; exact .same rfl rfl rfl
    | removeSession hconn hstatus hfree => cases hdelivers; exact .same rfl rfl rfl
    | register ht hpc hfree => cases hdelivers; exact .same rfl rfl rfl
    | accept ht hpc ok => cases hdelivers; exact .same rfl rfl rfl
  | _ => exact .same rfl rfl rfl

/-- Where a task of a data stream comes from, with its reader: they were there as they are, or have
just been spawned, or have taken a step. -/
inductive TaskOrigin (n n' : Network) (l : NetworkLabel) (i : Nat) (t' : DataStreamTask)
    (reader' : DataReader) : Prop
  | kept (ht : n.world.dataStreams[i]? = some t') (hreader : n.readers[i]? = some reader')
  | accepted {c : ConnectionId} {conn : Connection} {link : Link} {header : SubgroupHeader}
      {stream : UniStream} {headerBytes : Bytes} {body : ByteStream}
      (hlink : n.links[c]? = some link) (hstream : stream ∈ link.uni)
      (hconn : n.world.connections[c]? = some conn)
      (hread : readSubgroupHeader.Returns stream.content (header, headerBytes) body)
      (ht' : t' = { senderSession := conn.sessionId, header })
      (hreader' : reader' = {
        connection := c
        answers := stream.answers
        hasProperties := header.hasProperties
        headerBytes, body, rest := body })
  | moved {t : DataStreamTask} {reader : DataReader} {input : Input}
      (hl : l = .relay (.dataStream i input)) (ht : n.world.dataStreams[i]? = some t)
      (hreader : n.readers[i]? = some reader) (hstep : DataStreamStep n.world i t input n'.world)
      (hmoves : reader.Moves n.world t input reader')

theorem NetworkStep.taskOrigin {n n' : Network} {l : NetworkLabel} (h : NetworkStep n l n')
    (hlength : n.readers.length = n.world.dataStreams.length) {i : Nat} {t' : DataStreamTask}
    {reader' : DataReader} (ht' : n'.world.dataStreams[i]? = some t')
    (hreader' : n'.readers[i]? = some reader') : TaskOrigin n n' l i t' reader' := by
  cases h.dataChange with
  | same hstreams hdata hreaders => exact .kept (hdata ▸ ht') (hreaders ▸ hreader')
  | accepted hl hlink hstream hconn hread hstreams hdata hreaders =>
    rw [hdata] at ht'
    rw [hreaders] at hreader'
    rcases Table.getElem?_concat.mp ht' with ht | ⟨rfl, rfl⟩
    · rcases Table.getElem?_concat.mp hreader' with hreader | ⟨rfl, -⟩
      · exact .kept ht hreader
      · rw [hlength] at ht
        simp at ht
    · rcases Table.getElem?_concat.mp hreader' with hreader | ⟨-, rfl⟩
      · rw [← hlength] at hreader
        simp at hreader
      · exact .accepted hlink (List.mem_of_mem_head? hstream) hconn hread rfl rfl
  | @moved j t reader reader₁ input hl ht hreader hstep hmoves hreaders =>
    rw [hreaders] at hreader'
    obtain ⟨reader₀, hreader₀, rfl⟩ := Table.getElem?_modify.mp hreader'
    by_cases hne : i = j
    · subst hne
      rw [if_pos rfl]
      exact .moved hl ht hreader hstep hmoves
    · rw [hstep.getElem?_other hne] at ht'
      rw [if_neg hne]
      exact .kept ht' hreader₀

/-! ### The relay's part of a run -/

/-- The relay takes every step that the network takes with it, and no other. -/
theorem NetworkStep.world {n n' : Network} {l : NetworkLabel} (h : NetworkStep n l n') :
    (∃ l', l = .relay l' ∧ Relay.relay.step n.world l' = some n'.world) ∨
      (∀ l', l ≠ .relay l') ∧ n'.world = n.world := by
  cases h with
  | relay hdelivers hstep => exact .inl ⟨_, rfl, hstep⟩
  | _ => exact .inr ⟨nofun, rfl⟩

/-- What the network lets the relay do, the relay can do. -/
theorem reachable_world {n : Network} (h : network.Reachable n) : relay.Reachable n.world := by
  refine h.invariant (I := fun n => relay.Reachable n.world) ⟨[], rfl⟩ ?_
  rintro n l n' hworld hstep
  rcases (NetworkStep.of_step hstep).world with ⟨l', -, hrelay⟩ | ⟨-, hsame⟩
  · exact hworld.step hrelay
  · rwa [hsame]

end Moqt.Relay
