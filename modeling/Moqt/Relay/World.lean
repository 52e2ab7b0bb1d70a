import Moqt.Library.Machine
import Moqt.Relay.State
import Moqt.Wire.SubgroupHeader

/-! The tasks of the relay and the steps that they take.  A task is the point of its function that
it has reached, with the function's variables; a step runs from there to the next `.await` that can
wait for another task or for a peer.  What peers and transports do is the input of a step, so that a
list of labels is both a schedule and everything that happens on the network. -/

namespace Moqt.Relay

open Library Wire

/-! ### Tasks -/

/-- The points of `handle_subscribe`.  At the points named after a write or a read, the task waits
for it to end. -/
inductive SubscribePc where
  | start
  | rejectFilter
  | trackLock
  | lockTrack
  | aggregate
  | forwardExisting
  | findPublisher
  | rejectNoPublisher
  | openUpstream
  | writeUpstream
  | awaitUpstream
  | record
  | forwardOk
  | awaitDone
  | fetchSubscribers
  | notify
  | returned
deriving DecidableEq, Repr

/-- A message on the request stream of a SUBSCRIBE. -/
inductive Response where
  | subscribeOk (ok : Received SubscribeOkMessage)
  | requestError (error : RequestErrorMessage)
  | publishDone (done : Received PublishDoneMessage)
deriving DecidableEq, Repr

/-- A `handle_subscribe` task: its arguments, the variables that it has assigned, and what has been
written on the request stream of its SUBSCRIBE, by this task or by another. -/
structure SubscribeTask where
  session : SessionId
  message : SubscribeMessage
  pc : SubscribePc := .start
  track : Option FullTrackName := none
  publisher : Option (SessionId × MoqtSession) := none
  upstreamRequest : Option SubscribeMessage := none
  /-- The SUBSCRIBE_OK that answers the request: of the existing subscription, or of the task's
  own. -/
  subscribeOk : Option (Received SubscribeOkMessage) := none
  publishDone : Option (Received PublishDoneMessage) := none
  subsToNotify : List RequestId := []
  written : List Response := []
  failedWrite : Bool := false
deriving DecidableEq, Repr

def SubscribeTask.wrote (t : SubscribeTask) (response : Response) (ok : Bool) : SubscribeTask :=
  if ok then { t with written := t.written ++ [response] } else { t with failedWrite := true }

inductive PublishNamespacePc where
  | register
  | accept
  | returned
deriving DecidableEq, Repr

/-- The task of a `SessionEvent::PublishNamespace`. -/
structure PublishNamespaceTask where
  session : SessionId
  message : PublishNamespaceMessage
  pc : PublishNamespacePc := .register
  /-- REQUEST_OK has been written. -/
  accepted : Bool := false
deriving DecidableEq, Repr

/-- An object as `read_object_raw` returns it, and as it is passed on. -/
structure RawObject where
  headerBytes : Bytes
  payload : Bytes
deriving DecidableEq, Repr

abbrev StreamId := Nat

/-- A unidirectional stream that the relay has opened to a subscriber. -/
structure Downstream where
  session : MoqtSession
  header : SubgroupHeader
  objects : List RawObject := []
  /-- FIN has been sent, by `finish()` or as the writer was dropped. -/
  finished : Bool := false
deriving DecidableEq, Repr

/-- The points of `handle_data_stream`; the loops carry what they have left to do. -/
inductive DataStreamPc where
  | lookup
  | drain
  | openStreams (todo : List MoqtSession)
  | readObject
  | writeObject (object : RawObject) (todo stillActive : List StreamId)
  | finish (todo : List StreamId)
  /-- `?` returns, and the writers that are left are dropped. -/
  | dropWriters (todo : List StreamId)
  | returned
deriving DecidableEq, Repr

/-- A `handle_data_stream` task. -/
structure DataStreamTask where
  senderSession : SessionId
  header : SubgroupHeader
  pc : DataStreamPc := .lookup
  activeWriters : List StreamId := []
  /-- Every stream that it has opened. -/
  opened : List StreamId := []
deriving DecidableEq, Repr

inductive ConnectionStatus where
  | looping
  | leaving
  | closed
deriving DecidableEq, Repr

/-- A `handle_connection` task from the registration of its session on. -/
structure Connection where
  sessionId : SessionId
  status : ConnectionStatus := .looping
  /-- The allocator of a server, which the relay is towards every peer. -/
  nextRequestId : UInt64 := 1
deriving DecidableEq, Repr

inductive SessionEvent where
  | subscribe (message : SubscribeMessage)
  | publishNamespace (message : PublishNamespaceMessage)
  | dataStream (header : SubgroupHeader)
deriving DecidableEq, Repr

/-- What a step is told about the network. -/
inductive Input where
  | proceed
  /-- A stream was opened (with its header written, for a data stream), or not. -/
  | opened (ok : Bool)
  /-- A write to a stream of the task's own ended. -/
  | wrote (ok : Bool)
  /-- A write to the request stream of the SUBSCRIBE `request` ended. -/
  | responded (request : RequestId) (ok : Bool)
  /-- A message was read from an upstream request stream, or the read failed. -/
  | response (message : Option RequestMessage)
  /-- `read_object_raw` returned: a failure, the end of the stream, or an object. -/
  | object (read : Option (Option RawObject))
deriving DecidableEq, Repr

inductive Label where
  | connect
  | event (c : ConnectionId) (event : SessionEvent)
  | eventError (c : ConnectionId)
  | removeSession (c : ConnectionId)
  | publishNamespace (i : Nat) (input : Input)
  | subscribe (k : RequestId) (input : Input)
  | dataStream (i : Nat) (input : Input)
deriving DecidableEq, Repr

/-- The shared state, who holds its mutex across an `.await`, who holds the lock of each track, and
the tasks. -/
structure World where
  state : RelayState
  stateGuard : Option RequestId
  trackGuard : FullTrackName → Option RequestId
  connections : List Connection
  publishNamespaces : List PublishNamespaceTask
  subscribes : List SubscribeTask
  dataStreams : List DataStreamTask
  streams : List Downstream

namespace World

def new : World where
  state := .new
  stateGuard := none
  trackGuard := fun _ => none
  connections := []
  publishNamespaces := []
  subscribes := []
  dataStreams := []
  streams := []

def setState (w : World) (state : RelayState) : World := { w with state }

def setStateGuard (w : World) (stateGuard : Option RequestId) : World := { w with stateGuard }

def setTrackGuard (w : World) (trackGuard : FullTrackName → Option RequestId) : World :=
  { w with trackGuard }

/-! ### Connections -/

/-- `handle_connection` up to its loop. -/
def connect (w : World) : World :=
  let (state, sessionId) := w.state.registerSession ⟨w.connections.length⟩
  { w with state, connections := w.connections ++ [{ sessionId }] }

/-- The task that is spawned for an event of the session `sessionId`. -/
def spawn (w : World) (sessionId : SessionId) : SessionEvent → World
  | .subscribe message =>
    { w with subscribes := w.subscribes ++ [{ session := sessionId, message }] }
  | .publishNamespace message =>
    { w with publishNamespaces := w.publishNamespaces ++ [{ session := sessionId, message }] }
  | .dataStream header =>
    { w with dataStreams := w.dataStreams ++ [{ senderSession := sessionId, header }] }

def setStatus (w : World) (c : ConnectionId) (status : ConnectionStatus) : World :=
  { w with connections := w.connections.modify c fun conn => { conn with status } }

def event (w : World) (c : ConnectionId) (event : SessionEvent) : Option World := do
  let conn ← w.connections[c]?
  guard (conn.status = .looping)
  return w.spawn conn.sessionId event

def eventError (w : World) (c : ConnectionId) : Option World := do
  let conn ← w.connections[c]?
  guard (conn.status = .looping)
  return w.setStatus c .leaving

/-- The cleanup after the loop of `handle_connection`. -/
def removeSession (w : World) (c : ConnectionId) : Option World := do
  let conn ← w.connections[c]?
  guard (conn.status = .leaving ∧ w.stateGuard = none)
  return (w.setState (w.state.removeSession conn.sessionId)).setStatus c .closed

/-! ### PUBLISH_NAMESPACE -/

def updateNamespace (w : World) (i : Nat) (f : PublishNamespaceTask → PublishNamespaceTask) :
    World :=
  { w with publishNamespaces := w.publishNamespaces.modify i f }

def publishNamespace (w : World) (i : Nat) (input : Input) : Option World := do
  let t ← w.publishNamespaces[i]?
  match t.pc, input with
  | .register, .proceed =>
    guard (w.stateGuard = none)
    let w := w.setState (w.state.registerNamespace t.message.trackNamespace t.session)
    return w.updateNamespace i fun t => { t with pc := .accept }
  | .accept, .wrote ok =>
    return w.updateNamespace i fun t => { t with pc := .returned, accepted := ok }
  | _, _ => none

/-! ### SUBSCRIBE -/

def task (w : World) (k : RequestId) : Option SubscribeTask := w.subscribes[k]?

def update (w : World) (k : RequestId) (f : SubscribeTask → SubscribeTask) : World :=
  { w with subscribes := w.subscribes.modify k f }

def goto (w : World) (k : RequestId) (pc : SubscribePc) : World :=
  w.update k fun t => { t with pc }

/-- A write to the request stream of `r` ends. -/
def write (w : World) (r : RequestId) (response : Response) (ok : Bool) : World :=
  w.update r fun t => t.wrote response ok

/-- `drop(track_guard)` -/
def dropTrackGuard (w : World) (k : RequestId) : World :=
  w.setTrackGuard fun track => if w.trackGuard track = some k then none else w.trackGuard track

/-- `handle_subscribe` returns, and drops the guards that it still holds. -/
def finish (w : World) (k : RequestId) : World :=
  let w := w.setStateGuard (if w.stateGuard = some k then none else w.stateGuard)
  (w.dropTrackGuard k).goto k .returned

def hasUnsupportedFilter (m : SubscribeMessage) : Bool :=
  m.parameters.any fun p =>
    match p with
    | .subscriptionFilter f => f != .nextGroupStart
    | _ => false

/-- The full track name, if the track name is UTF-8. -/
def trackOf (m : SubscribeMessage) : Option FullTrackName :=
  (String.fromUTF8? ⟨m.trackName.toArray⟩).map fun name =>
    { trackNamespace := m.trackNamespace, name }

def unsupportedFilter : RequestErrorMessage where
  errorCode := ERROR_NOT_SUPPORTED
  retryInterval := 0
  reasonPhrase := .ofString "only NextGroupStart filter is supported"

def noPublisher : RequestErrorMessage where
  errorCode := ERROR_DOES_NOT_EXIST
  retryInterval := 0
  reasonPhrase := .ofString "no publisher for namespace"

/-- `request_id_alloc.allocate()` on the session of the connection `c`. -/
def allocateRequestId (w : World) (c : ConnectionId) : World :=
  { w with connections := w.connections.modify c fun conn =>
      { conn with nextRequestId := conn.nextRequestId + 2 } }

/-- The SUBSCRIBE that `MoqtSession::subscribe` sends. -/
def upstreamSubscribe (m : SubscribeMessage) (track : FullTrackName) (requestId : UInt64) :
    SubscribeMessage where
  requestId
  requiredRequestIdDelta := 0
  trackNamespace := m.trackNamespace
  trackName := track.name.toUTF8.data.toList
  parameters := m.parameters

def subscribe (w : World) (k : RequestId) (input : Input) : Option World := do
  let t ← w.task k
  match t.pc, input with
  | .start, .proceed =>
    if hasUnsupportedFilter t.message then
      return w.goto k .rejectFilter
    else
      match trackOf t.message with
      | none => return w.finish k
      | some track => return w.update k fun t => { t with pc := .trackLock, track := some track }
  | .rejectFilter, .responded r ok =>
    guard (r = k)
    return (w.write k (.requestError unsupportedFilter) ok).finish k
  | .trackLock, .proceed =>
    let track ← t.track
    guard (w.stateGuard = none)
    return (w.setState (w.state.trackLock track)).goto k .lockTrack
  | .lockTrack, .proceed =>
    let track ← t.track
    guard (w.trackGuard track = none)
    return (w.setTrackGuard (Function.update w.trackGuard track (some k))).goto k .aggregate
  | .aggregate, .proceed =>
    let track ← t.track
    guard (w.stateGuard = none)
    match w.state.subscriptions.lookup track with
    | some existing =>
      let w := w.setState (w.state.pushSubscriber track existing ⟨t.session, k⟩)
      return w.update k fun t =>
        { t with pc := .forwardExisting, subscribeOk := some existing.subscribeOk }
    | none => return w.goto k .findPublisher
  | .forwardExisting, .responded r ok =>
    guard (r = k)
    let answer ← t.subscribeOk
    if answer.message.encode.isOk then
      return (w.write k (.subscribeOk answer) ok).finish k
    else return w.finish k
  | .findPublisher, .proceed =>
    guard (w.stateGuard = none)
    match w.state.findPublisher t.message.trackNamespace with
    | some found =>
      return w.update k fun t => { t with pc := .openUpstream, publisher := some found }
    -- the guard in the scrutinee of the `match` lives to the end of the arm that rejects
    | none => return (w.setStateGuard (some k)).goto k .rejectNoPublisher
  | .rejectNoPublisher, .responded r ok =>
    guard (r = k)
    return (w.write k (.requestError noPublisher) ok).finish k
  | .openUpstream, .opened ok =>
    let track ← t.track
    let (_, session) ← t.publisher
    let conn ← w.connections[session.connection]?
    if ok then
      let w := w.allocateRequestId session.connection
      let request := upstreamSubscribe t.message track conn.nextRequestId
      return w.update k fun t => { t with pc := .writeUpstream, upstreamRequest := some request }
    else return w.finish k
  | .writeUpstream, .wrote ok =>
    let request ← t.upstreamRequest
    if request.encode.isOk && ok then return w.goto k .awaitUpstream else return w.finish k
  | .awaitUpstream, .response message =>
    match message with
    | some (.subscribeOk ok) =>
      return w.update k fun t => { t with pc := .record, subscribeOk := some ⟨k, ok⟩ }
    | _ => return w.finish k
  | .record, .proceed =>
    let track ← t.track
    let (publisher, _) ← t.publisher
    let answer ← t.subscribeOk
    guard (w.stateGuard = none)
    let w := w.setState
      (w.state.addSubscriber track publisher answer.message.trackAlias answer ⟨t.session, k⟩)
    return (w.dropTrackGuard k).goto k .forwardOk
  | .forwardOk, .responded r ok =>
    guard (r = k)
    let answer ← t.subscribeOk
    if answer.message.encode.isOk then
      let w := w.write k (.subscribeOk answer) ok
      if ok then return w.goto k .awaitDone else return w.finish k
    else return w.finish k
  | .awaitDone, .response message =>
    match message with
    | some (.publishDone done) =>
      return w.update k fun t => { t with pc := .fetchSubscribers, publishDone := some ⟨k, done⟩ }
    | _ => return w.finish k
  | .fetchSubscribers, .proceed =>
    let track ← t.track
    guard (w.stateGuard = none)
    let requests := w.state.findSubscriberRequests track
    return w.update k fun t => { t with pc := .notify, subsToNotify := requests }
  | .notify, .proceed =>
    guard (t.subsToNotify = [])
    return w.finish k
  | .notify, .responded r ok =>
    let done ← t.publishDone
    guard (t.subsToNotify.head? = some r)
    let w := w.update k fun t => { t with subsToNotify := t.subsToNotify.tail }
    -- the result of the write is ignored
    return w.write r (.publishDone done) ok
  | _, _ => none

/-! ### Data streams -/

def updateData (w : World) (i : Nat) (f : DataStreamTask → DataStreamTask) : World :=
  { w with dataStreams := w.dataStreams.modify i f }

def gotoData (w : World) (i : Nat) (pc : DataStreamPc) : World :=
  w.updateData i fun t => { t with pc }

def updateStream (w : World) (s : StreamId) (f : Downstream → Downstream) : World :=
  { w with streams := w.streams.modify s f }

/-- `open_data_stream` has opened a stream to `session`. -/
def openStream (w : World) (i : Nat) (session : MoqtSession) (header : SubgroupHeader) : World :=
  let w := { w with streams := w.streams ++ [Downstream.mk session header [] false] }
  w.updateData i fun t =>
    { t with activeWriters := t.activeWriters ++ [w.streams.length - 1]
             opened := t.opened ++ [w.streams.length - 1] }

def dataStream (w : World) (i : Nat) (input : Input) : Option World := do
  let t ← w.dataStreams[i]?
  match t.pc, input with
  | .lookup, .proceed =>
    guard (w.stateGuard = none)
    let subSessions := w.state.findSubscriberSessions t.senderSession t.header.trackAlias
    return w.gotoData i (if subSessions.isEmpty then .drain else .openStreams subSessions)
  | .drain, .object (some (some _)) => return w
  | .drain, .object _ => return w.gotoData i .returned
  | .openStreams (session :: todo), .opened ok =>
    let w := w.gotoData i (.openStreams todo)
    return if ok then w.openStream i session t.header else w
  | .openStreams [], .proceed => return w.gotoData i .readObject
  | .readObject, .object none => return w.gotoData i (.dropWriters t.activeWriters)
  | .readObject, .object (some none) => return w.gotoData i (.finish t.activeWriters)
  | .readObject, .object (some (some object)) =>
    return w.gotoData i (.writeObject object t.activeWriters [])
  | .writeObject object (s :: todo) stillActive, .wrote ok =>
    if ok then
      let w := w.updateStream s fun d => { d with objects := d.objects ++ [object] }
      return w.gotoData i (.writeObject object todo (stillActive ++ [s]))
    else return w.gotoData i (.writeObject object todo stillActive)
  | .writeObject _ [] stillActive, .proceed =>
    return w.updateData i fun t => { t with pc := .readObject, activeWriters := stillActive }
  | .finish (s :: todo), .wrote ok =>
    let w := if ok then w.updateStream s fun d => { d with finished := true } else w
    return w.gotoData i (.finish todo)
  | .finish [], .proceed => return w.gotoData i .returned
  -- a stream whose writer is dropped sends FIN, if it can still send
  | .dropWriters (s :: todo), .wrote ok =>
    let w := if ok then w.updateStream s fun d => { d with finished := true } else w
    return w.gotoData i (.dropWriters todo)
  | .dropWriters [], .proceed => return w.gotoData i .returned
  | _, _ => none

/-! ### The relay -/

def step (w : World) : Label → Option World
  | .connect => if w.stateGuard = none then some w.connect else none
  | .event c event => w.event c event
  | .eventError c => w.eventError c
  | .removeSession c => w.removeSession c
  | .publishNamespace i input => w.publishNamespace i input
  | .subscribe k input => w.subscribe k input
  | .dataStream i input => w.dataStream i input

end World

/-- The relay, from the moment that `Relay::new` returns. -/
def relay : Machine World Label where
  init := .new
  step := World.step

/-! ### Schedules

What peers and tasks do in turn; the schedules of single runs are put together from these. -/

namespace Schedule

/-- The connection `c` has the namespace `ns` accepted, by the task `i`. -/
def announce (c : ConnectionId) (i : Nat) (ns : TrackNamespace) : List Label :=
  [.event c (.publishNamespace ⟨0, 0, ns⟩), .publishNamespace i .proceed,
    .publishNamespace i (.wrote true)]

/-- The connection `c` subscribes to a track; the task `k` runs up to the aggregation and through
it. -/
def ask (c : ConnectionId) (k : RequestId) (ns : TrackNamespace) (name : Bytes) : List Label :=
  .event c (.subscribe ⟨0, 0, ns, name, []⟩) :: List.replicate 4 (.subscribe k .proceed)

/-- The task `k` subscribes upstream, is answered with the alias, and records the subscription. -/
def fetchUpstream (k : RequestId) (trackAlias : UInt64) : List Label :=
  [.subscribe k .proceed, .subscribe k (.opened true), .subscribe k (.wrote true),
    .subscribe k (.response (some (.subscribeOk ⟨trackAlias, [], []⟩))), .subscribe k .proceed]

/-- The publisher ends the upstream subscription of the task `k`, which fetches the subscribers. -/
def endTrack (k : RequestId) : List Label :=
  [.subscribe k (.response (some (.publishDone ⟨0, 0, ⟨[]⟩⟩))), .subscribe k .proceed]

def disconnect (c : ConnectionId) : List Label := [.eventError c, .removeSession c]

end Schedule

end Moqt.Relay
