import Moqt.Library.Map
import Moqt.Wire.Message

/-! The state that the tasks of the relay share, and the operations on it.  Each operation runs
under the state's mutex.  A SUBSCRIBE_OK or a PUBLISH_DONE is kept with the handler that read it
from its upstream request stream; the relay itself never looks at that. -/

namespace Moqt.Relay

open Library Wire

/-- Assigned in sequence; taken not to wrap. -/
abbrev SessionId := Nat

/-- The index of a `handle_connection` task. -/
abbrev ConnectionId := Nat

/-- The index of a `handle_subscribe` task, which stands for its `SubscribeRequest` too. -/
abbrev RequestId := Nat

/-- A handle to the session of a connection (`Arc<MoqtSession>`). -/
@[ext]
structure MoqtSession where
  connection : ConnectionId
deriving DecidableEq, Repr

structure FullTrackName where
  trackNamespace : TrackNamespace
  name : String
deriving DecidableEq, Repr

/-- A message that the handler of the request `upstream` read on the request stream that it opened
to a publisher. -/
structure Received (α : Type) where
  upstream : RequestId
  message : α
deriving DecidableEq, Repr

structure SubscriberEntry where
  sessionId : SessionId
  request : RequestId
deriving DecidableEq, Repr

structure Subscription where
  publisherSession : SessionId
  publisherTrackAlias : UInt64
  subscribeOk : Received SubscribeOkMessage
  subscribers : List SubscriberEntry
deriving DecidableEq, Repr

/-- `sub.subscribers.push(..)` -/
def Subscription.push (sub : Subscription) (subscriber : SubscriberEntry) : Subscription :=
  { sub with subscribers := sub.subscribers ++ [subscriber] }

structure RelayState where
  nextSessionId : SessionId
  sessions : Map SessionId MoqtSession
  namespaceToPublisher : Map TrackNamespace SessionId
  subscriptions : Map FullTrackName Subscription
  trackLocks : Map FullTrackName Unit

namespace RelayState

def new : RelayState where
  nextSessionId := 0
  sessions := ∅
  namespaceToPublisher := ∅
  subscriptions := ∅
  trackLocks := ∅

def registerSession (s : RelayState) (session : MoqtSession) : RelayState × SessionId :=
  ({ s with nextSessionId := s.nextSessionId + 1
            sessions := s.sessions.insert s.nextSessionId session }, s.nextSessionId)

/-- What `remove_session` keeps of a subscription. -/
def keepWithout (id : SessionId) (sub : Subscription) : Option Subscription :=
  if sub.publisherSession = id then none
  else
    let subscribers := sub.subscribers.filter fun e => e.sessionId ≠ id
    if subscribers.isEmpty then none else some { sub with subscribers }

def removeSession (s : RelayState) (id : SessionId) : RelayState :=
  { s with
    sessions := s.sessions.erase id
    namespaceToPublisher :=
      s.namespaceToPublisher.retain fun _ v => if v ≠ id then some v else none
    subscriptions := s.subscriptions.retain fun _ sub => keepWithout id sub }

def registerNamespace (s : RelayState) (ns : TrackNamespace) (sessionId : SessionId) :
    RelayState :=
  { s with namespaceToPublisher := s.namespaceToPublisher.insert ns sessionId }

/-- The loop of `find_publisher` over ever shorter prefixes, of which there is one more than the
namespace has fields. -/
def findPublisherFrom (s : RelayState) : (left : Nat) → List Bytes →
    Option (SessionId × MoqtSession)
  | left, fields =>
    match s.namespaceToPublisher.lookup ⟨fields⟩ with
    | some pubId => (s.sessions.lookup pubId).map fun session => (pubId, session)
    | none =>
      match left with
      | 0 => none
      | left + 1 => s.findPublisherFrom left fields.dropLast

def findPublisher (s : RelayState) (ns : TrackNamespace) : Option (SessionId × MoqtSession) :=
  s.findPublisherFrom ns.fields.length ns.fields

def addSubscriber (s : RelayState) (track : FullTrackName) (publisherSession : SessionId)
    (publisherTrackAlias : UInt64) (subscribeOk : Received SubscribeOkMessage)
    (subscriber : SubscriberEntry) : RelayState :=
  let sub := (s.subscriptions.lookup track).getD
    { publisherSession, publisherTrackAlias, subscribeOk, subscribers := [] }
  { s with subscriptions := s.subscriptions.insert track (sub.push subscriber) }

def findSubscriberSessions (s : RelayState) (publisherSession : SessionId) (trackAlias : UInt64) :
    List MoqtSession :=
  ((s.subscriptions.values.filter fun sub =>
    sub.publisherSession = publisherSession && sub.publisherTrackAlias == trackAlias).flatMap
      fun sub => sub.subscribers).filterMap fun e => s.sessions.lookup e.sessionId

/-- `existing.subscribers.push(..)` on the subscription that `find_existing_subscription_mut`
found. -/
def pushSubscriber (s : RelayState) (track : FullTrackName) (existing : Subscription)
    (subscriber : SubscriberEntry) : RelayState :=
  { s with subscriptions := s.subscriptions.insert track (existing.push subscriber) }

def findSubscriberRequests (s : RelayState) (track : FullTrackName) : List RequestId :=
  match s.subscriptions.lookup track with
  | some sub => sub.subscribers.map (·.request)
  | none => []

/-- `track_locks.entry(..).or_default()` -/
def trackLock (s : RelayState) (track : FullTrackName) : RelayState :=
  match s.trackLocks.lookup track with
  | some _ => s
  | none => { s with trackLocks := s.trackLocks.insert track () }

/-! ### What the operations do to the maps -/

theorem keepWithout_eq_some {id : SessionId} {sub sub' : Subscription} :
    keepWithout id sub = some sub' ↔ sub.publisherSession ≠ id ∧
      sub' = { sub with subscribers := sub.subscribers.filter fun e => e.sessionId ≠ id } ∧
      sub'.subscribers ≠ [] := by
  unfold keepWithout
  split
  · simp [*]
  · simp only
    constructor
    · intro h
      split at h
      · cases h
      next hne =>
        obtain rfl := Option.some.inj h
        exact ⟨‹_›, rfl, fun hnil => hne (List.isEmpty_iff.mpr hnil)⟩
    · rintro ⟨-, rfl, hne⟩
      rw [if_neg fun hnil => hne (List.isEmpty_iff.mp hnil)]

theorem lookup_removeSession_subscriptions {s : RelayState} {id : SessionId}
    {track : FullTrackName} {sub' : Subscription} :
    (s.removeSession id).subscriptions.lookup track = some sub' ↔
      ∃ sub, s.subscriptions.lookup track = some sub ∧ keepWithout id sub = some sub' := by
  simp only [removeSession, Map.lookup_retain, Option.bind_eq_some_iff]

theorem lookup_removeSession_namespaces {s : RelayState} {id : SessionId} {ns : TrackNamespace}
    {owner : SessionId} :
    (s.removeSession id).namespaceToPublisher.lookup ns = some owner ↔
      s.namespaceToPublisher.lookup ns = some owner ∧ owner ≠ id := by
  simp only [removeSession, Map.lookup_retain, Option.bind_eq_some_iff]
  constructor
  · rintro ⟨v, hv, h⟩
    split at h
    · obtain rfl := Option.some.inj h
      exact ⟨hv, ‹_›⟩
    · cases h
  · rintro ⟨hv, hne⟩
    exact ⟨owner, hv, if_pos hne⟩

theorem lookup_removeSession_sessions (s : RelayState) (id a : SessionId) :
    (s.removeSession id).sessions.lookup a = if a = id then none else s.sessions.lookup a :=
  Map.lookup_erase_eq _ _ _

theorem mem_removeSession {s : RelayState} {id a : SessionId} :
    a ∈ (s.removeSession id).sessions ↔ a ∈ s.sessions ∧ a ≠ id := by
  rw [Map.mem_iff_lookup, lookup_removeSession_sessions]
  split
  · simp [*]
  · simp [*, Map.mem_iff_lookup]

theorem mem_registerSession {s : RelayState} {session : MoqtSession} {a : SessionId} :
    a ∈ (s.registerSession session).1.sessions ↔ a = s.nextSessionId ∨ a ∈ s.sessions :=
  AList.mem_insert _

/-- Where no subscription is, `add_subscriber` pushes to the one that it is given. -/
theorem addSubscriber_vacant {s : RelayState} {track : FullTrackName} {publisher : SessionId}
    {trackAlias : UInt64} {ok : Received SubscribeOkMessage} {entry : SubscriberEntry}
    (h : s.subscriptions.lookup track = none) :
    s.addSubscriber track publisher trackAlias ok entry =
      s.pushSubscriber track ⟨publisher, trackAlias, ok, []⟩ entry := by
  rw [addSubscriber, h]
  rfl

theorem addSubscriber_existing {s : RelayState} {track : FullTrackName} {publisher : SessionId}
    {trackAlias : UInt64} {ok : Received SubscribeOkMessage} {entry : SubscriberEntry}
    {sub : Subscription} (h : s.subscriptions.lookup track = some sub) :
    s.addSubscriber track publisher trackAlias ok entry = s.pushSubscriber track sub entry := by
  rw [addSubscriber, h]
  rfl

/-! ### Lookups -/

theorem mem_findSubscriberSessions {s : RelayState} {publisher : SessionId} {trackAlias : UInt64}
    {session : MoqtSession} :
    session ∈ s.findSubscriberSessions publisher trackAlias ↔
      ∃ track sub, s.subscriptions.lookup track = some sub ∧ sub.publisherSession = publisher ∧
        sub.publisherTrackAlias = trackAlias ∧
        ∃ e ∈ sub.subscribers, s.sessions.lookup e.sessionId = some session := by
  simp only [findSubscriberSessions, List.mem_filterMap, List.mem_flatMap, List.mem_filter,
    Map.mem_values, Bool.and_eq_true, decide_eq_true_eq, beq_iff_eq]
  constructor
  · rintro ⟨e, ⟨sub, ⟨⟨track, htrack⟩, hpub, halias⟩, he⟩, hs⟩
    exact ⟨track, sub, htrack, hpub, halias, e, he, hs⟩
  · rintro ⟨track, sub, htrack, hpub, halias, e, he, hs⟩
    exact ⟨e, ⟨sub, ⟨⟨track, htrack⟩, hpub, halias⟩, he⟩, hs⟩

theorem mem_findSubscriberRequests {s : RelayState} {track : FullTrackName} {r : RequestId} :
    r ∈ s.findSubscriberRequests track ↔
      ∃ sub, s.subscriptions.lookup track = some sub ∧ ∃ e ∈ sub.subscribers, e.request = r := by
  unfold findSubscriberRequests
  cases s.subscriptions.lookup track <;> simp

end RelayState

end Moqt.Relay
