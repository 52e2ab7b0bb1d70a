import Moqt.Relay.World
import Mathlib.Data.Option.Basic

/-! Everything that a step of the relay can do: `SubscribeStep` for `handle_subscribe`, `Step` for
all labels.  Later proofs take a step apart with these relations and not with the functions. -/

namespace Moqt.Relay

open Library Wire

namespace World

variable (w : World) (k : RequestId)

/-! ### The parts of the world that the helper functions leave alone -/

@[simp] theorem task_update (f : SubscribeTask → SubscribeTask) (j : RequestId) :
    (w.update k f).task j = if j = k then (w.task j).map f else w.task j := by
  simp only [World.task, World.update, List.getElem?_modify, eq_comm (a := k)]
  split <;> simp

@[simp] theorem task_goto (pc : SubscribePc) (j : RequestId) :
    (w.goto k pc).task j = if j = k then (w.task j).map fun t => { t with pc } else w.task j :=
  task_update w k _ j

@[simp] theorem task_write (response : Response) (ok : Bool) (j : RequestId) :
    (w.write k response ok).task j =
      if j = k then (w.task j).map fun t => t.wrote response ok else w.task j :=
  task_update w k _ j

@[simp] theorem task_finish (j : RequestId) :
    (w.finish k).task j =
      if j = k then (w.task j).map fun t => { t with pc := .returned } else w.task j :=
  task_update _ k _ j

@[simp] theorem task_setState (s : RelayState) (j : RequestId) :
    (w.setState s).task j = w.task j := rfl

@[simp] theorem task_setStateGuard (guard : Option RequestId) (j : RequestId) :
    (w.setStateGuard guard).task j = w.task j := rfl

@[simp] theorem task_setTrackGuard (guard : FullTrackName → Option RequestId) (j : RequestId) :
    (w.setTrackGuard guard).task j = w.task j := rfl

@[simp] theorem task_dropTrackGuard (j : RequestId) :
    (w.dropTrackGuard k).task j = w.task j := rfl

@[simp] theorem task_allocateRequestId (c : ConnectionId) (j : RequestId) :
    (w.allocateRequestId c).task j = w.task j := rfl

/-! ### The start -/

theorem not_task_new {t : SubscribeTask} : World.new.task k ≠ some t := nofun

theorem not_lookup_new {track : FullTrackName} {sub : Subscription} :
    World.new.state.subscriptions.lookup track ≠ some sub := nofun

end World

namespace SubscribeTask

variable (t : SubscribeTask) (response : Response) (ok : Bool)

@[simp] theorem wrote_session : (t.wrote response ok).session = t.session := by cases ok <;> rfl

@[simp] theorem wrote_message : (t.wrote response ok).message = t.message := by cases ok <;> rfl

@[simp] theorem wrote_pc : (t.wrote response ok).pc = t.pc := by cases ok <;> rfl

@[simp] theorem wrote_track : (t.wrote response ok).track = t.track := by cases ok <;> rfl

@[simp] theorem wrote_publisher : (t.wrote response ok).publisher = t.publisher := by
  cases ok <;> rfl

@[simp] theorem wrote_upstreamRequest :
    (t.wrote response ok).upstreamRequest = t.upstreamRequest := by
  cases ok <;> rfl

@[simp] theorem wrote_subscribeOk : (t.wrote response ok).subscribeOk = t.subscribeOk := by
  cases ok <;> rfl

@[simp] theorem wrote_publishDone : (t.wrote response ok).publishDone = t.publishDone := by
  cases ok <;> rfl

@[simp] theorem wrote_subsToNotify : (t.wrote response ok).subsToNotify = t.subsToNotify := by
  cases ok <;> rfl

end SubscribeTask

/-! ### The steps of a SUBSCRIBE -/

/-- The step makes the handler return by an error that it has not told the subscriber of: the track
name is not UTF-8, the upstream request failed or was not answered with SUBSCRIBE_OK, or the
SUBSCRIBE_OK cannot be encoded. -/
def SilentExit (t : SubscribeTask) (input : Input) : Prop :=
  match t.pc, input with
  | .start, .proceed =>
    World.hasUnsupportedFilter t.message = false ∧ World.trackOf t.message = none
  | .openUpstream, .opened ok => ok = false
  | .writeUpstream, .wrote ok => ∀ request, t.upstreamRequest = some request →
      (request.encode.isOk && ok) = false
  | .awaitUpstream, .response message => ∀ ok, message ≠ some (.subscribeOk ok)
  | .forwardExisting, .responded _ _ | .forwardOk, .responded _ _ =>
    ∀ answer, t.subscribeOk = some answer → answer.message.encode.isOk = false
  | _, _ => False

/-- What a step of `handle_subscribe` makes of the world, case by case. -/
inductive SubscribeStep (w : World) (k : RequestId) (t : SubscribeTask) : Input → World → Prop
  | unsupported (hpc : t.pc = .start) (hfilter : World.hasUnsupportedFilter t.message = true) :
    SubscribeStep w k t .proceed (w.goto k .rejectFilter)
  | named (hpc : t.pc = .start) {track : FullTrackName}
      (hfilter : World.hasUnsupportedFilter t.message = false)
      (htrack : World.trackOf t.message = some track) :
    SubscribeStep w k t .proceed
      (w.update k fun t => { t with pc := .trackLock, track := some track })
  | silent {input : Input} (hpc : t.pc ≠ .returned ∧ t.pc ≠ .rejectNoPublisher)
      (h : SilentExit t input) : SubscribeStep w k t input (w.finish k)
  | reject (hpc : t.pc = .rejectFilter ∨ t.pc = .rejectNoPublisher) (error : RequestErrorMessage)
      (ok : Bool) : SubscribeStep w k t (.responded k ok)
      ((w.write k (.requestError error) ok).finish k)
  | trackLock (hpc : t.pc = .trackLock) {track : FullTrackName} (htrack : t.track = some track)
      (hfree : w.stateGuard = none) : SubscribeStep w k t .proceed
      ((w.setState (w.state.trackLock track)).goto k .lockTrack)
  | lockTrack (hpc : t.pc = .lockTrack) {track : FullTrackName} (htrack : t.track = some track)
      (hfree : w.trackGuard track = none) : SubscribeStep w k t .proceed
      ((w.setTrackGuard (Function.update w.trackGuard track (some k))).goto k .aggregate)
  | join (hpc : t.pc = .aggregate) {track : FullTrackName} {existing : Subscription}
      (htrack : t.track = some track) (hfree : w.stateGuard = none)
      (hexisting : w.state.subscriptions.lookup track = some existing) :
    SubscribeStep w k t .proceed
      ((w.setState (w.state.pushSubscriber track existing ⟨t.session, k⟩)).update k fun t =>
        { t with pc := .forwardExisting, subscribeOk := some existing.subscribeOk })
  | vacant (hpc : t.pc = .aggregate) {track : FullTrackName} (htrack : t.track = some track)
      (hfree : w.stateGuard = none) (hvacant : w.state.subscriptions.lookup track = none) :
    SubscribeStep w k t .proceed (w.goto k .findPublisher)
  | found (hpc : t.pc = .findPublisher) (hfree : w.stateGuard = none)
      {publisher : SessionId × MoqtSession}
      (hfound : w.state.findPublisher t.message.trackNamespace = some publisher) :
    SubscribeStep w k t .proceed
      (w.update k fun t => { t with pc := .openUpstream, publisher := some publisher })
  | noPublisher (hpc : t.pc = .findPublisher) (hfree : w.stateGuard = none)
      (hnone : w.state.findPublisher t.message.trackNamespace = none) :
    SubscribeStep w k t .proceed
      ((w.setStateGuard (some k)).goto k .rejectNoPublisher)
  | opened (hpc : t.pc = .openUpstream) {track : FullTrackName}
      {publisher : SessionId × MoqtSession} {conn : Connection} (htrack : t.track = some track)
      (hpublisher : t.publisher = some publisher)
      (hconn : w.connections[publisher.2.connection]? = some conn) :
    SubscribeStep w k t (.opened true)
      ((w.allocateRequestId publisher.2.connection).update k fun t' => { t' with
        pc := .writeUpstream
        upstreamRequest := some (World.upstreamSubscribe t.message track conn.nextRequestId) })
  | sent (hpc : t.pc = .writeUpstream) {request : SubscribeMessage}
      (hrequest : t.upstreamRequest = some request) (hencode : request.encode.isOk = true) :
    SubscribeStep w k t (.wrote true) (w.goto k .awaitUpstream)
  | answered (hpc : t.pc = .awaitUpstream) (ok : SubscribeOkMessage) :
    SubscribeStep w k t (.response (some (.subscribeOk ok)))
      (w.update k fun t => { t with pc := .record, subscribeOk := some ⟨k, ok⟩ })
  | record (hpc : t.pc = .record) {track : FullTrackName} {publisher : SessionId × MoqtSession}
      {answer : Received SubscribeOkMessage} (htrack : t.track = some track)
      (hpublisher : t.publisher = some publisher) (hanswer : t.subscribeOk = some answer)
      (hfree : w.stateGuard = none) : SubscribeStep w k t .proceed
      (((w.setState (w.state.addSubscriber track publisher.1 answer.message.trackAlias answer
        ⟨t.session, k⟩)).dropTrackGuard k).goto k .forwardOk)
  | forwardLast (ok : Bool) (hpc : t.pc = .forwardExisting ∨ t.pc = .forwardOk ∧ ok = false)
      {answer : Received SubscribeOkMessage} (hanswer : t.subscribeOk = some answer)
      (hencode : answer.message.encode.isOk = true) : SubscribeStep w k t (.responded k ok)
      ((w.write k (.subscribeOk answer) ok).finish k)
  | forwarded (hpc : t.pc = .forwardOk) {answer : Received SubscribeOkMessage}
      (hanswer : t.subscribeOk = some answer) (hencode : answer.message.encode.isOk = true) :
    SubscribeStep w k t (.responded k true)
      ((w.write k (.subscribeOk answer) true).goto k .awaitDone)
  | done (hpc : t.pc = .awaitDone) (done : PublishDoneMessage) :
    SubscribeStep w k t (.response (some (.publishDone done)))
      (w.update k fun t => { t with pc := .fetchSubscribers, publishDone := some ⟨k, done⟩ })
  | notDone (hpc : t.pc = .awaitDone) {message : Option RequestMessage}
      (hmessage : ∀ done, message ≠ some (.publishDone done)) :
    SubscribeStep w k t (.response message) (w.finish k)
  | fetch (hpc : t.pc = .fetchSubscribers) {track : FullTrackName} (htrack : t.track = some track)
      (hfree : w.stateGuard = none) : SubscribeStep w k t .proceed
      (w.update k fun t => { t with
        pc := .notify, subsToNotify := w.state.findSubscriberRequests track })
  | notify (hpc : t.pc = .notify) {done : Received PublishDoneMessage}
      (hdone : t.publishDone = some done) {r : RequestId} {rs : List RequestId}
      (htodo : t.subsToNotify = r :: rs) (ok : Bool) : SubscribeStep w k t (.responded r ok)
      ((w.update k fun t => { t with subsToNotify := t.subsToNotify.tail }).write r
        (.publishDone done) ok)
  | notified (hpc : t.pc = .notify) (htodo : t.subsToNotify = []) :
    SubscribeStep w k t .proceed (w.finish k)

/-- The function takes no other steps. -/
theorem SubscribeStep.of_subscribe {w w' : World} {k : RequestId} {input : Input}
    (h : w.subscribe k input = some w') :
    ∃ t, w.task k = some t ∧ SubscribeStep w k t input w' := by
  simp only [World.subscribe, Option.bind_eq_bind, Option.bind_eq_some_iff] at h
  obtain ⟨t, ht, h⟩ := h
  refine ⟨t, ht, ?_⟩
  split at h
  all_goals simp only [Option.bind_eq_some_iff, Option.guard_eq_some', Option.pure_def,
    Option.some.injEq, exists_and_left, exists_const, reduceCtorEq] at h
  case h_1 hpc =>
    split at h
    · obtain rfl := Option.some.inj h
      exact .unsupported hpc ‹_›
    next hfilter =>
      have hfilter : World.hasUnsupportedFilter t.message = false := by simpa using hfilter
      split at h
      next hnone =>
        obtain rfl := Option.some.inj h
        exact .silent (by simp [hpc]) (by simp only [SilentExit, hpc]; exact ⟨hfilter, hnone⟩)
      next track hsome =>
        obtain rfl := Option.some.inj h
        exact .named hpc hfilter hsome
  case h_2 hpc =>
    obtain ⟨rfl, rfl⟩ := h
    exact .reject (.inl hpc) _ _
  case h_3 hpc =>
    obtain ⟨track, htrack, hfree, rfl⟩ := h
    exact .trackLock hpc htrack hfree
  case h_4 hpc =>
    obtain ⟨track, htrack, hfree, rfl⟩ := h
    exact .lockTrack hpc htrack hfree
  case h_5 hpc =>
    obtain ⟨track, htrack, hfree, h⟩ := h
    split at h
    next existing hexisting =>
      obtain rfl := Option.some.inj h
      exact .join hpc htrack hfree hexisting
    next hvacant =>
      obtain rfl := Option.some.inj h
      exact .vacant hpc htrack hfree hvacant
  case h_6 r ok hpc =>
    obtain ⟨rfl, answer, hanswer, h⟩ := h
    split at h
    next hencode =>
      obtain rfl := Option.some.inj h
      exact .forwardLast _ (.inl hpc) hanswer hencode
    next hencode =>
      obtain rfl := Option.some.inj h
      exact .silent (by simp [hpc]) (by simpa [SilentExit, hpc, hanswer] using hencode)
  case h_7 hpc =>
    obtain ⟨hfree, h⟩ := h
    split at h
    next publisher hfound =>
      obtain rfl := Option.some.inj h
      exact .found hpc hfree hfound
    next hnone =>
      obtain rfl := Option.some.inj h
      exact .noPublisher hpc hfree hnone
  case h_8 hpc =>
    obtain ⟨rfl, rfl⟩ := h
    exact .reject (.inr hpc) _ _
  case h_9 ok hpc =>
    obtain ⟨track, htrack, publisher, hpublisher, conn, hconn, h⟩ := h
    split at h
    next hok =>
      obtain rfl := Option.some.inj h
      subst hok
      exact .opened hpc htrack hpublisher hconn
    next hok =>
      obtain rfl := Option.some.inj h
      exact .silent (by simp [hpc]) (by simpa [SilentExit, hpc] using hok)
  case h_10 ok hpc =>
    obtain ⟨request, hrequest, h⟩ := h
    split at h
    next hok =>
      obtain rfl := Option.some.inj h
      obtain ⟨hencode, rfl⟩ := Bool.and_eq_true_iff.mp hok
      exact .sent hpc hrequest hencode
    next hok =>
      obtain rfl := Option.some.inj h
      exact .silent (by simp [hpc]) (by simpa [SilentExit, hpc, hrequest] using hok)
  case h_11 message hpc =>
    split at h
    next ok =>
      obtain rfl := Option.some.inj h
      exact .answered hpc ok
    next hother =>
      obtain rfl := Option.some.inj h
      exact .silent (by simp [hpc]) (by simpa [SilentExit, hpc] using hother)
  case h_12 hpc =>
    obtain ⟨track, htrack, publisher, hpublisher, answer, hanswer, hfree, rfl⟩ := h
    exact .record hpc htrack hpublisher hanswer hfree
  case h_13 r ok hpc =>
    obtain ⟨rfl, answer, hanswer, h⟩ := h
    split at h
    next hencode =>
      split at h
      next hok =>
        obtain rfl := Option.some.inj h
        subst hok
        exact .forwarded hpc hanswer hencode
      next hok =>
        obtain rfl := Option.some.inj h
        exact .forwardLast _ (.inr ⟨hpc, by simpa using hok⟩) hanswer hencode
    next hencode =>
      obtain rfl := Option.some.inj h
      exact .silent (by simp [hpc]) (by simpa [SilentExit, hpc, hanswer] using hencode)
  case h_14 message hpc =>
    split at h
    next done =>
      obtain rfl := Option.some.inj h
      exact .done hpc done
    next hother =>
      obtain rfl := Option.some.inj h
      exact .notDone hpc (by simpa using hother)
  case h_15 hpc =>
    obtain ⟨track, htrack, hfree, rfl⟩ := h
    exact .fetch hpc htrack hfree
  case h_16 hpc =>
    obtain ⟨htodo, rfl⟩ := h
    exact .notified hpc htodo
  case h_17 r ok hpc =>
    obtain ⟨done, hdone, hhead, rfl⟩ := h
    obtain ⟨rs, htodo⟩ := List.head?_eq_some_iff.mp hhead
    exact .notify hpc hdone htodo ok

/-! ### The steps of a data stream -/

/-- What a step of `handle_data_stream` makes of the world, case by case. -/
inductive DataStreamStep (w : World) (i : Nat) (t : DataStreamTask) : Input → World → Prop
  | lookup (hpc : t.pc = .lookup) (hfree : w.stateGuard = none) {sessions : List MoqtSession}
      (hsessions : sessions = w.state.findSubscriberSessions t.senderSession t.header.trackAlias) :
    DataStreamStep w i t .proceed
      (w.gotoData i (if sessions.isEmpty then .drain else .openStreams sessions))
  | drained (hpc : t.pc = .drain) (object : RawObject) :
    DataStreamStep w i t (.object (some (some object))) w
  | drainEnd (hpc : t.pc = .drain) (read : Option (Option RawObject)) :
    DataStreamStep w i t (.object read) (w.gotoData i .returned)
  | openStream {session : MoqtSession} {todo : List MoqtSession}
      (hpc : t.pc = .openStreams (session :: todo)) : DataStreamStep w i t (.opened true)
      ((w.gotoData i (.openStreams todo)).openStream i session t.header)
  | skipStream {session : MoqtSession} {todo : List MoqtSession}
      (hpc : t.pc = .openStreams (session :: todo)) : DataStreamStep w i t (.opened false)
      (w.gotoData i (.openStreams todo))
  | allOpened (hpc : t.pc = .openStreams []) :
    DataStreamStep w i t .proceed (w.gotoData i .readObject)
  | readFailed (hpc : t.pc = .readObject) :
    DataStreamStep w i t (.object none) (w.gotoData i (.dropWriters t.activeWriters))
  | readEnd (hpc : t.pc = .readObject) :
    DataStreamStep w i t (.object (some none)) (w.gotoData i (.finish t.activeWriters))
  | readObject (hpc : t.pc = .readObject) (object : RawObject) :
    DataStreamStep w i t (.object (some (some object)))
      (w.gotoData i (.writeObject object t.activeWriters []))
  | wroteObject {object : RawObject} {s : StreamId} {todo stillActive : List StreamId}
      (hpc : t.pc = .writeObject object (s :: todo) stillActive) :
    DataStreamStep w i t (.wrote true)
      ((w.updateStream s fun d => { d with objects := d.objects ++ [object] }).gotoData i
        (.writeObject object todo (stillActive ++ [s])))
  | lostWriter {object : RawObject} {s : StreamId} {todo stillActive : List StreamId}
      (hpc : t.pc = .writeObject object (s :: todo) stillActive) :
    DataStreamStep w i t (.wrote false) (w.gotoData i (.writeObject object todo stillActive))
  | objectWritten {object : RawObject} {stillActive : List StreamId}
      (hpc : t.pc = .writeObject object [] stillActive) : DataStreamStep w i t .proceed
      (w.updateData i fun t => { t with pc := .readObject, activeWriters := stillActive })
  | finished {s : StreamId} {todo : List StreamId} (hpc : t.pc = .finish (s :: todo)) :
    DataStreamStep w i t (.wrote true)
      ((w.updateStream s fun d => { d with finished := true }).gotoData i (.finish todo))
  | unfinished {s : StreamId} {todo : List StreamId} (hpc : t.pc = .finish (s :: todo)) :
    DataStreamStep w i t (.wrote false) (w.gotoData i (.finish todo))
  | allFinished (hpc : t.pc = .finish []) :
    DataStreamStep w i t .proceed (w.gotoData i .returned)
  | dropped {s : StreamId} {todo : List StreamId} (hpc : t.pc = .dropWriters (s :: todo)) :
    DataStreamStep w i t (.wrote true)
      ((w.updateStream s fun d => { d with finished := true }).gotoData i (.dropWriters todo))
  | droppedDead {s : StreamId} {todo : List StreamId} (hpc : t.pc = .dropWriters (s :: todo)) :
    DataStreamStep w i t (.wrote false) (w.gotoData i (.dropWriters todo))
  | allDropped (hpc : t.pc = .dropWriters []) :
    DataStreamStep w i t .proceed (w.gotoData i .returned)

theorem DataStreamStep.of_dataStream {w w' : World} {i : Nat} {input : Input}
    (h : w.dataStream i input = some w') :
    ∃ t, w.dataStreams[i]? = some t ∧ DataStreamStep w i t input w' := by
  simp only [World.dataStream, Option.bind_eq_bind, Option.bind_eq_some_iff] at h
  obtain ⟨t, ht, h⟩ := h
  refine ⟨t, ht, ?_⟩
  split at h
  all_goals simp only [Option.bind_eq_some_iff, Option.guard_eq_some', Option.pure_def,
    Option.some.injEq, exists_const, reduceCtorEq] at h
  case h_1 hpc =>
    obtain ⟨hfree, rfl⟩ := h
    exact .lookup hpc hfree rfl
  case h_2 hpc =>
    subst h
    exact .drained hpc _
  case h_3 hpc =>
    subst h
    exact .drainEnd hpc _
  case h_4 ok hpc =>
    cases ok with
    | true => subst h; exact .openStream hpc
    | false => subst h; exact .skipStream hpc
  case h_5 hpc =>
    subst h
    exact .allOpened hpc
  case h_6 hpc =>
    subst h
    exact .readFailed hpc
  case h_7 hpc =>
    subst h
    exact .readEnd hpc
  case h_8 hpc =>
    subst h
    exact .readObject hpc _
  case h_9 ok hpc =>
    cases ok with
    | true => obtain rfl := Option.some.inj h; exact .wroteObject hpc
    | false => obtain rfl := Option.some.inj h; exact .lostWriter hpc
  case h_10 hpc =>
    subst h
    exact .objectWritten hpc
  case h_11 ok hpc =>
    cases ok with
    | true => subst h; exact .finished hpc
    | false => subst h; exact .unfinished hpc
  case h_12 hpc =>
    subst h
    exact .allFinished hpc
  case h_13 ok hpc =>
    cases ok with
    | true => subst h; exact .dropped hpc
    | false => subst h; exact .droppedDead hpc
  case h_14 hpc =>
    subst h
    exact .allDropped hpc

/-- A data stream changes nothing but the data streams. -/
theorem DataStreamStep.frame {w w' : World} {i : Nat} {t : DataStreamTask} {input : Input}
    (h : DataStreamStep w i t input w') :
    w' = { w with dataStreams := w'.dataStreams, streams := w'.streams } := by
  cases h <;> rfl

/-! ### The steps of the relay -/

/-- What a step makes of the world, label by label. -/
inductive Step (w : World) : Label → World → Prop
  | connect (hfree : w.stateGuard = none) : Step w .connect w.connect
  | event {c : ConnectionId} {conn : Connection} (hconn : w.connections[c]? = some conn)
      (hstatus : conn.status = .looping) (event : SessionEvent) :
    Step w (.event c event) (w.spawn conn.sessionId event)
  | eventError {c : ConnectionId} {conn : Connection} (hconn : w.connections[c]? = some conn)
      (hstatus : conn.status = .looping) : Step w (.eventError c) (w.setStatus c .leaving)
  | removeSession {c : ConnectionId} {conn : Connection} (hconn : w.connections[c]? = some conn)
      (hstatus : conn.status = .leaving) (hfree : w.stateGuard = none) :
    Step w (.removeSession c)
      ((w.setState (w.state.removeSession conn.sessionId)).setStatus c .closed)
  | register {i : Nat} {t : PublishNamespaceTask} (ht : w.publishNamespaces[i]? = some t)
      (hpc : t.pc = .register) (hfree : w.stateGuard = none) :
    Step w (.publishNamespace i .proceed)
      ((w.setState (w.state.registerNamespace t.message.trackNamespace t.session)).updateNamespace
        i fun t => { t with pc := .accept })
  | accept {i : Nat} {t : PublishNamespaceTask} (ht : w.publishNamespaces[i]? = some t)
      (hpc : t.pc = .accept) (ok : Bool) : Step w (.publishNamespace i (.wrote ok))
      (w.updateNamespace i fun t => { t with pc := .returned, accepted := ok })
  | subscribe {k : RequestId} {t : SubscribeTask} {input : Input} {w' : World}
      (ht : w.task k = some t) (h : SubscribeStep w k t input w') : Step w (.subscribe k input) w'
  | dataStream {i : Nat} {t : DataStreamTask} {input : Input} {w' : World}
      (ht : w.dataStreams[i]? = some t) (h : DataStreamStep w i t input w') :
    Step w (.dataStream i input) w'

theorem Step.of_step {w w' : World} {l : Label} (h : relay.step w l = some w') : Step w l w' := by
  change w.step l = some w' at h
  cases l with
  | connect =>
    simp only [World.step] at h
    split at h
    · obtain rfl := Option.some.inj h
      exact .connect ‹_›
    · cases h
  | event c event =>
    simp only [World.step, World.event, Option.bind_eq_bind, Option.bind_eq_some_iff,
      Option.guard_eq_some', exists_const, Option.pure_def, Option.some.injEq] at h
    obtain ⟨conn, hconn, hstatus, rfl⟩ := h
    exact .event hconn hstatus event
  | eventError c =>
    simp only [World.step, World.eventError, Option.bind_eq_bind, Option.bind_eq_some_iff,
      Option.guard_eq_some', exists_const, Option.pure_def, Option.some.injEq] at h
    obtain ⟨conn, hconn, hstatus, rfl⟩ := h
    exact .eventError hconn hstatus
  | removeSession c =>
    simp only [World.step, World.removeSession, Option.bind_eq_bind, Option.bind_eq_some_iff,
      Option.guard_eq_some', exists_const, Option.pure_def, Option.some.injEq] at h
    obtain ⟨conn, hconn, ⟨hstatus, hfree⟩, rfl⟩ := h
    exact .removeSession hconn hstatus hfree
  | publishNamespace i input =>
    simp only [World.step, World.publishNamespace, Option.bind_eq_bind,
      Option.bind_eq_some_iff] at h
    obtain ⟨t, ht, h⟩ := h
    split at h
    all_goals simp only [Option.bind_eq_some_iff, Option.guard_eq_some', exists_const,
      Option.pure_def, Option.some.injEq, reduceCtorEq] at h
    case h_1 hpc =>
      obtain ⟨hfree, rfl⟩ := h
      exact .register ht hpc hfree
    case h_2 ok hpc =>
      subst h
      exact .accept ht hpc ok
  | subscribe k input =>
    obtain ⟨t, ht, h⟩ := SubscribeStep.of_subscribe h
    exact .subscribe ht h
  | dataStream i input =>
    obtain ⟨t, ht, h⟩ := DataStreamStep.of_dataStream h
    exact .dataStream ht h

/-- What a step makes of the shared state: nothing, or one of the operations on it. -/
inductive StateStep (w : World) : Label → RelayState → Prop
  | same (l : Label) : StateStep w l w.state
  | registerSession : StateStep w .connect (w.state.registerSession ⟨w.connections.length⟩).1
  | removeSession {c : ConnectionId} {conn : Connection} (hconn : w.connections[c]? = some conn) :
    StateStep w (.removeSession c) (w.state.removeSession conn.sessionId)
  | registerNamespace {i : Nat} {t : PublishNamespaceTask} (ht : w.publishNamespaces[i]? = some t)
      (hpc : t.pc = .register) : StateStep w (.publishNamespace i .proceed)
      (w.state.registerNamespace t.message.trackNamespace t.session)
  | trackLock {k : RequestId} (track : FullTrackName) :
    StateStep w (.subscribe k .proceed) (w.state.trackLock track)
  | pushSubscriber {k : RequestId} {t : SubscribeTask} {track : FullTrackName}
      {existing : Subscription} (ht : w.task k = some t) (hpc : t.pc = .aggregate)
      (htrack : t.track = some track)
      (hexisting : w.state.subscriptions.lookup track = some existing) :
    StateStep w (.subscribe k .proceed) (w.state.pushSubscriber track existing ⟨t.session, k⟩)
  | addSubscriber {k : RequestId} {t : SubscribeTask} {track : FullTrackName}
      {publisher : SessionId × MoqtSession} {answer : Received SubscribeOkMessage}
      (ht : w.task k = some t) (hpc : t.pc = .record) (htrack : t.track = some track)
      (hpublisher : t.publisher = some publisher) (hanswer : t.subscribeOk = some answer) :
    StateStep w (.subscribe k .proceed)
      (w.state.addSubscriber track publisher.1 answer.message.trackAlias answer ⟨t.session, k⟩)

theorem Step.stateStep {w w' : World} {l : Label} (h : Step w l w') : StateStep w l w'.state := by
  cases h with
  | connect hfree => exact .registerSession
  | event hconn hstatus event => cases event <;> exact .same _
  | eventError hconn hstatus => exact .same _
  | removeSession hconn hstatus hfree => exact .removeSession hconn
  | register ht hpc hfree => exact .registerNamespace ht hpc
  | accept ht hpc ok => exact .same _
  | dataStream ht h =>
    rw [h.frame]
    exact .same _
  | subscribe ht h =>
    cases h with
    | trackLock hpc htrack hfree => exact .trackLock _
    | join hpc htrack hfree hexisting => exact .pushSubscriber ht hpc htrack hexisting
    | record hpc htrack hpublisher hanswer hfree =>
      exact .addSubscriber ht hpc htrack hpublisher hanswer
    | _ => exact .same _

end Moqt.Relay
