import Moqt.Web.Publisher
import Moqt.Web.Subscriber

/-! The pages of the browser when they are started again.  `stop` ends the session and leaves the
variables about the groups as they are, so a cycle of `start` and `stop` begins with what the cycles
before it have left. -/

namespace Moqt.Web

open Library

/-! ### Cycles of the publisher -/

/-- A call that waits for nothing. -/
def HandlerPoint.settled : HandlerPoint → Bool
  | .written | .rejected | .dropped => true
  | .finishing _ | .creating _ | .opening _ | .writing => false

/-- What is sent on a stream, with its group: nothing behind `close`. -/
def GroupStream.sent (stream : GroupStream) : Nat × List WriterCall :=
  (stream.groupId, stream.calls.takeWhile fun call => call ≠ .close)

namespace Publisher

def sent (s : Publisher) : List (Nat × List WriterCall) := s.streams.map GroupStream.sent

/-- The page that has been loaded. -/
def loaded : Publisher where
  session := false
  encoder := none
  currentGroup := none
  groupId := 0
  streamCount := 0
  groupStarted := false
  streams := []
  handlers := []
  stops := []

/-- `start`, up to where the encoder has been configured.  The calls are those of the cycle that
begins; the streams of the earlier cycles are still known. -/
def start (s : Publisher) : Publisher :=
  { s with session := true, encoder := some .configured, handlers := [], stops := [] }

theorem start_loaded : loaded.start = publisher.init := rfl

/-- `stop` has come to its end.  What has waited for the transport is settled when the session is
closed. -/
structure Stopped (s : Publisher) : Prop where
  session : s.session = false
  encoder : s.encoder = none
  handlers : ∀ h ∈ s.handlers, h.point.settled = true
  stops : ∀ stop ∈ s.stops, stop = .ended

/-- The page after any number of cycles. -/
def Cycled (s : Publisher) : Prop := publisher.Cycled start Stopped loaded s

/-- The chunks that the encoder gives. -/
def given (ls : List PublisherLabel) : List EncodedVideoChunk :=
  ls.filterMap fun
    | .chunk chunk => some chunk
    | _ => none

/-- The next cycle opens the streams and writes the objects that a page does which has just been
loaded, if the encoder gives the same chunks and what the calls wait for comes in the same order.  On
the earlier streams it writes nothing. -/
def Independent (s : Publisher) (chunks : List EncodedVideoChunk) : Prop :=
  ∀ ls, given ls <+: chunks → (publisher.run s.start ls).sent =
    s.sent ++ (publisher.run loaded.start ls).sent

end Publisher

/-! ### A page with streams of earlier cycles -/

/-- The point in a page with `n` earlier streams. -/
def HandlerPoint.behind (n : Nat) : HandlerPoint → HandlerPoint
  | .finishing k => .finishing (n + k)
  | .opening k => .opening (n + k)
  | point => point

def PublisherStop.behind (n : Nat) : PublisherStop → PublisherStop
  | .finishing k => .finishing (n + k)
  | stop => stop

theorem HandlerPoint.dropped_behind (n : Nat) : HandlerPoint.dropped.behind n = .dropped := rfl

theorem HandlerPoint.finishing_behind (n k : Nat) :
    (HandlerPoint.finishing k).behind n = .finishing (n + k) := rfl

theorem PublisherStop.ended_behind (n : Nat) : PublisherStop.ended.behind n = .ended := rfl

theorem PublisherStop.finishing_behind (n k : Nat) :
    (PublisherStop.finishing k).behind n = .finishing (n + k) := rfl

def Handler.behind (n : Nat) (h : Handler) : Handler := { h with point := h.point.behind n }

namespace Publisher

/-- The page with the streams `old` in front of its own. -/
def behind (old : List GroupStream) (s : Publisher) : Publisher :=
  { s with
    currentGroup := s.currentGroup.map (old.length + ·)
    streams := old ++ s.streams
    handlers := s.handlers.map (Handler.behind old.length)
    stops := s.stops.map (PublisherStop.behind old.length) }

variable (old : List GroupStream)

@[simp] theorem behind_session (s : Publisher) : (s.behind old).session = s.session := rfl

@[simp] theorem behind_encoder (s : Publisher) : (s.behind old).encoder = s.encoder := rfl

@[simp] theorem behind_currentGroup (s : Publisher) :
    (s.behind old).currentGroup = s.currentGroup.map (old.length + ·) := rfl

@[simp] theorem behind_groupStarted (s : Publisher) :
    (s.behind old).groupStarted = s.groupStarted := rfl

@[simp] theorem behind_streams (s : Publisher) : (s.behind old).streams = old ++ s.streams := rfl

@[simp] theorem behind_handlers (s : Publisher) :
    (s.behind old).handlers = s.handlers.map (Handler.behind old.length) := rfl

@[simp] theorem behind_stops (s : Publisher) :
    (s.behind old).stops = s.stops.map (PublisherStop.behind old.length) := rfl

@[simp] theorem behind_encoderReady (s : Publisher) :
    (s.behind old).encoderReady = s.encoderReady := rfl

theorem behind_updateStream (s : Publisher) (k : Nat) (f : GroupStream → GroupStream) :
    (s.behind old).updateStream (old.length + k) f = (s.updateStream k f).behind old := by
  simp only [behind, updateStream]
  rw [Table.modify_append]

theorem closing_behind (s : Publisher) (k : Nat) :
    (s.behind old).closing (old.length + k) = s.closing k := by
  rw [closing, behind_streams, List.getElem?_append_right (Nat.le_add_right ..),
    Nat.add_sub_cancel_left, closing]

/-- `close`, which throws if it has been called. -/
theorem close_behind {α : Type} {f : α → α} {throws waits waits' : α} (hthrows : f throws = throws)
    (hwaits : f waits = waits') (s : Publisher) (k : Nat) :
    ((s.behind old).close (old.length + k),
        if (s.behind old).closing (old.length + k) then throws else waits') =
      (s.close k, if s.closing k then throws else waits).map (behind old) f := by
  rw [close, close, behind_updateStream, closing_behind, Prod.map_apply]
  split
  · rw [hthrows]
  · rw [hwaits]

theorem writeObject_behind (s : Publisher) (k : Nat) (payload : Bytes) :
    (s.behind old).writeObject (old.length + k) payload =
      (s.writeObject k payload).map (behind old) (HandlerPoint.behind old.length) := by
  rw [writeObject, writeObject, behind_updateStream, closing_behind, Prod.map_apply]
  split
  · rfl
  · rfl

theorem openSubgroup_behind (s : Publisher) :
    (s.behind old).openSubgroup = s.openSubgroup.behind old.length := by
  unfold openSubgroup
  rw [behind_session]
  split
  · rfl
  · rfl

theorem openOrWrite_behind (s : Publisher) (chunk : EncodedVideoChunk) :
    (s.behind old).openOrWrite chunk =
      (s.openOrWrite chunk).map (behind old) (HandlerPoint.behind old.length) := by
  unfold openOrWrite
  rw [behind_currentGroup]
  cases s.currentGroup with
  | none => exact congrArg (Prod.mk (s.behind old)) (openSubgroup_behind old s)
  | some k =>
    simp only [Option.map_some]
    rw [behind_groupStarted]
    split
    · exact congrArg (Prod.mk (s.behind old)) (openSubgroup_behind old s)
    · exact writeObject_behind old s k chunk.data

theorem handleEncodedChunk_behind (s : Publisher) (chunk : EncodedVideoChunk) :
    (s.behind old).handleEncodedChunk chunk =
      (s.handleEncodedChunk chunk).map (behind old) (HandlerPoint.behind old.length) := by
  rw [handleEncodedChunk, behind_session, behind_groupStarted, handleEncodedChunk]
  by_cases hsession : s.session = false
  · rw [if_pos hsession, if_pos hsession]
    rfl
  rw [if_neg hsession, if_neg hsession]
  by_cases hkey : chunk.type = .key ∧ s.groupStarted = true
  · rw [if_pos hkey, if_pos hkey]
    cases s with
    | mk session encoder currentGroup groupId streamCount groupStarted streams handlers stops =>
      cases currentGroup with
      | none =>
        exact openOrWrite_behind old
          ⟨session, encoder, none, groupId + 1, streamCount, groupStarted, streams, handlers, stops⟩
          chunk
      | some k =>
        exact close_behind old (HandlerPoint.dropped_behind old.length)
          (HandlerPoint.finishing_behind old.length k)
          ⟨session, encoder, some k, groupId, streamCount, groupStarted, streams, handlers, stops⟩ k
  · rw [if_neg hkey, if_neg hkey]
    exact openOrWrite_behind old s chunk

theorem goOn_behind (s : Publisher) (chunk : EncodedVideoChunk) (point : HandlerPoint) :
    (s.behind old).goOn chunk (point.behind old.length) =
      (s.goOn chunk point).map (Prod.map (behind old) (HandlerPoint.behind old.length)) := by
  cases point with
  | finishing k =>
    simp only [HandlerPoint.behind, goOn, behind_updateStream, Option.map_some]
    exact congrArg some (openOrWrite_behind old
      { s.updateStream k GroupStream.finish with
        streamCount := s.streamCount + 1, groupId := s.groupId + 1 } chunk)
  | creating groupId => simp [HandlerPoint.behind, goOn, behind]
  | opening k =>
    exact congrArg some
      (writeObject_behind old { s with currentGroup := some k, groupStarted := true } k chunk.data)
  | writing | written | rejected | dropped => rfl

theorem failed_behind (n : Nat) (point : HandlerPoint) :
    failed (point.behind n) = (failed point).map (HandlerPoint.behind n) := by
  cases point <;> rfl

theorem stopGroup_behind (s : Publisher) : (s.behind old).stopGroup =
    s.stopGroup.map (behind old) (PublisherStop.behind old.length) := by
  cases s with
  | mk session encoder currentGroup groupId streamCount groupStarted streams handlers stops =>
    cases currentGroup with
    | none => rfl
    | some k =>
      exact close_behind old (PublisherStop.ended_behind old.length)
        (PublisherStop.finishing_behind old.length k)
        ⟨session, encoder, some k, groupId, streamCount, groupStarted, streams, handlers, stops⟩ k

theorem stop_behind (s : Publisher) :
    (s.behind old).stop = s.stop.map (behind old) (PublisherStop.behind old.length) := by
  unfold stop
  rw [behind_encoder]
  split
  · rfl
  · rfl
  · exact stopGroup_behind old s

theorem stopGoOn_behind (s : Publisher) (stop : PublisherStop) :
    (s.behind old).stopGoOn (stop.behind old.length) =
      (s.stopGoOn stop).map (Prod.map (behind old) (PublisherStop.behind old.length)) := by
  cases stop with
  | flushing =>
    simp only [PublisherStop.behind, stopGoOn]
    rw [behind_encoder]
    split
    · rfl
    · rfl
    · exact congrArg some (stopGroup_behind old { s with encoder := none })
  | finishing k =>
    simp only [PublisherStop.behind, stopGoOn, behind_updateStream]
    rfl
  | ended => rfl

theorem addHandler_behind (chunk : EncodedVideoChunk) (r : Publisher × HandlerPoint) :
    addHandler chunk (r.map (behind old) (HandlerPoint.behind old.length)) =
      (addHandler chunk r).behind old := by
  simp [addHandler, behind, Handler.behind]

theorem setHandler_behind (i : Nat) (chunk : EncodedVideoChunk) (r : Publisher × HandlerPoint) :
    setHandler i chunk (r.map (behind old) (HandlerPoint.behind old.length)) =
      (setHandler i chunk r).behind old := by
  simp [setHandler, behind, Handler.behind, List.map_set]

theorem setStop_behind (j : Nat) (r : Publisher × PublisherStop) :
    setStop j (r.map (behind old) (PublisherStop.behind old.length)) =
      (setStop j r).behind old := by
  simp [setStop, behind, List.map_set]

/-- The page does with streams in front what it does without them. -/
theorem step_behind (s : Publisher) (l : PublisherLabel) :
    publisher.step (s.behind old) l = (publisher.step s l).map (behind old) := by
  show (s.behind old).step l = (s.step l).map (behind old)
  cases l with
  | chunk chunk =>
    have hcond : (s.behind old).encoderReady ∧ ((s.behind old).handlers = [] → chunk.type = .key) ↔
        s.encoderReady ∧ (s.handlers = [] → chunk.type = .key) := by
      simp [behind, encoderReady]
    by_cases hready : s.encoderReady ∧ (s.handlers = [] → chunk.type = .key)
    · rw [step, if_pos (hcond.mpr hready), handleEncodedChunk_behind, addHandler_behind, step,
        if_pos hready, Option.map_some]
    · rw [step, if_neg (mt hcond.mp hready), step, if_neg hready, Option.map_none]
  | resume i =>
    rw [step, step, behind_handlers, List.getElem?_map]
    cases s.handlers[i]? with
    | none => rfl
    | some h =>
      simp only [Option.map_some, Option.bind_some, Handler.behind, goOn_behind, Option.map_map]
      exact congrFun (congrArg Option.map (funext fun r => setHandler_behind old i h.chunk r)) _
  | reject i =>
    rw [step, step, behind_handlers, List.getElem?_map]
    cases s.handlers[i]? with
    | none => rfl
    | some h =>
      simp only [Option.map_some, Option.bind_some, Handler.behind, failed_behind, Option.map_map]
      exact congrFun (congrArg Option.map
        (funext fun point => setHandler_behind old i h.chunk (s, point))) _
  | encoderFails =>
    rw [step, step, behind_encoderReady, Option.map_if]
    rfl
  | stop =>
    simp only [step, stop_behind, Option.map_some]
    simp [behind]
  | stopResume j =>
    rw [step, step, behind_stops, List.getElem?_map]
    cases s.stops[j]? with
    | none => rfl
    | some stop =>
      simp only [Option.map_some, Option.bind_some, stopGoOn_behind, Option.map_map]
      exact congrFun (congrArg Option.map (funext fun r => setStop_behind old j r)) _
  | stopReject j =>
    rw [step, step, behind_stops, List.getElem?_map]
    cases s.stops[j]? with
    | none => rfl
    | some stop =>
      have hended : stop.behind old.length = .ended ↔ stop = .ended := by
        cases stop <;> simp [PublisherStop.behind]
      simp only [Option.map_some, Option.bind_some, hended]
      split
      · rfl
      · exact congrArg some (setStop_behind old j (s, .ended))

theorem sent_behind (s : Publisher) : (s.behind old).sent = old.map GroupStream.sent ++ s.sent :=
  List.map_append

/-! ### The first group of a page -/

/-- The page has come to no group yet: the variables about the groups are as they are loaded. -/
structure NoGroup (s : Publisher) : Prop where
  currentGroup : s.currentGroup = none
  groupId : s.groupId = 0
  streamCount : s.streamCount = 0
  groupStarted : s.groupStarted = false
  handlers : ∀ h ∈ s.handlers, ∀ k, h.point ≠ .finishing k
  stops : ∀ k, .finishing k ∉ s.stops

/-- The page has come to a group. -/
def HasGroup (s : Publisher) : Prop := s.currentGroup.isSome = true ∧ s.groupStarted = true

theorem noGroup_loaded : loaded.NoGroup := ⟨rfl, rfl, rfl, rfl, by simp [loaded], by simp [loaded]⟩

theorem NoGroup.start {s : Publisher} (h : s.NoGroup) : s.start.NoGroup :=
  ⟨h.currentGroup, h.groupId, h.streamCount, h.groupStarted, by simp [Publisher.start],
    by simp [Publisher.start]⟩

theorem HasGroup.start {s : Publisher} (h : s.HasGroup) : s.start.HasGroup := h

/-- A page that has come to no group starts as if it had been loaded, but for its streams. -/
theorem NoGroup.start_eq {s : Publisher} (h : s.NoGroup) :
    s.start = loaded.start.behind s.streams := by
  obtain ⟨hcurrent, hid, hcount, hstarted, -, -⟩ := h
  simp [Publisher.start, loaded, behind, hcurrent, hid, hcount, hstarted]

theorem HasGroup.openOrWrite {s : Publisher} (h : s.HasGroup) (chunk : EncodedVideoChunk) :
    (s.openOrWrite chunk).1.HasGroup := by
  unfold Publisher.openOrWrite
  split
  · exact h
  · split
    · exact h
    · exact h

theorem HasGroup.handleEncodedChunk {s : Publisher} (h : s.HasGroup) (chunk : EncodedVideoChunk) :
    (s.handleEncodedChunk chunk).1.HasGroup := by
  unfold Publisher.handleEncodedChunk
  split
  · exact h
  split
  · split
    · exact h
    · exact HasGroup.openOrWrite (s := { s with groupId := s.groupId + 1 }) h chunk
  · exact h.openOrWrite chunk

theorem hasGroup_opened (s : Publisher) (k : Nat) (payload : Bytes) :
    (writeObject { s with currentGroup := some k, groupStarted := true } k payload).1.HasGroup :=
  ⟨rfl, rfl⟩

theorem HasGroup.goOn {s : Publisher} (h : s.HasGroup) {chunk : EncodedVideoChunk}
    {point : HandlerPoint} {r : Publisher × HandlerPoint} (hr : s.goOn chunk point = some r) :
    r.1.HasGroup := by
  cases point with
  | finishing k =>
    obtain rfl := Option.some.inj hr
    exact HasGroup.openOrWrite
      (s := { s.updateStream k GroupStream.finish with
        streamCount := s.streamCount + 1, groupId := s.groupId + 1 }) h chunk
  | creating groupId =>
    obtain rfl := Option.some.inj hr
    exact h
  | opening k =>
    obtain rfl := Option.some.inj hr
    exact hasGroup_opened s k chunk.data
  | writing =>
    obtain rfl := Option.some.inj hr
    exact h
  | written | rejected | dropped => cases hr

theorem HasGroup.stopGroup {s : Publisher} (h : s.HasGroup) : s.stopGroup.1.HasGroup := by
  unfold Publisher.stopGroup
  split
  · exact h
  · exact h

theorem HasGroup.stop {s : Publisher} (h : s.HasGroup) : s.stop.1.HasGroup := by
  rcases s.stop_cases with heq | heq | ⟨-, heq⟩
  · rw [heq]
    exact h
  · rw [heq]
    exact h
  · rw [heq]
    exact h.stopGroup

theorem HasGroup.stopGoOn {s : Publisher} (h : s.HasGroup) {stop : PublisherStop}
    {r : Publisher × PublisherStop} (hr : s.stopGoOn stop = some r) : r.1.HasGroup := by
  obtain rfl | rfl | ⟨k, -, rfl⟩ := stopGoOn_cases hr
  · exact h
  · exact HasGroup.stopGroup (s := { s with encoder := none }) h
  · exact h

/-- The page does not leave its groups again. -/
theorem HasGroup.step {s s' : Publisher} {l : PublisherLabel} (h : s.HasGroup)
    (hs : s.step l = some s') : s'.HasGroup := by
  cases stepped_of_step hs with
  | @chunk chunk => exact h.handleEncodedChunk chunk
  | resume _ hr => exact h.goOn hr
  | stop => exact h.stop
  | stopResume _ hr => exact h.stopGoOn hr
  | reject | encoderFails | stopReject => exact h

theorem NoGroup.frame {s : Publisher} (h : s.NoGroup) (session : Bool)
    (encoder : Option CodecState) (streams : List GroupStream) {handlers : List Handler}
    {stops : List PublisherStop}
    (hhandlers : ∀ handler ∈ handlers, ∀ k, handler.point ≠ .finishing k)
    (hstops : ∀ k, .finishing k ∉ stops) :
    NoGroup { s with session, encoder, streams, handlers, stops } :=
  ⟨h.currentGroup, h.groupId, h.streamCount, h.groupStarted, hhandlers, hstops⟩

/-- A chunk changes nothing before there is a group, and waits for no group to end. -/
theorem NoGroup.handleEncodedChunk {s : Publisher} (h : s.NoGroup) (chunk : EncodedVideoChunk) :
    ∃ point, s.handleEncodedChunk chunk = (s, point) ∧ ∀ k, point ≠ .finishing k := by
  cases hsession : s.session with
  | false => exact ⟨.dropped, by simp [Publisher.handleEncodedChunk, hsession], by simp⟩
  | true =>
    refine ⟨.creating s.groupId, ?_, by simp⟩
    simp [Publisher.handleEncodedChunk, Publisher.openOrWrite, openSubgroup, hsession,
      h.currentGroup, h.groupStarted]

theorem NoGroup.setHandler {s : Publisher} (h : s.NoGroup) (i : Nat) (chunk : EncodedVideoChunk)
    (streams : List GroupStream) {point : HandlerPoint} (hpoint : ∀ k, point ≠ .finishing k) :
    (setHandler i chunk ({ s with streams }, point)).NoGroup := by
  refine h.frame s.session s.encoder streams (fun handler hmem => ?_) h.stops
  rcases List.mem_or_eq_of_mem_set hmem with hmem | rfl
  · exact h.handlers handler hmem
  · exact hpoint

theorem NoGroup.stopGroup {s : Publisher} (h : s.NoGroup) :
    s.stopGroup = ({ s with session := false }, .ended) := by
  simp [Publisher.stopGroup, h.currentGroup]

theorem NoGroup.setStops {s : Publisher} (h : s.NoGroup) (session : Bool)
    (encoder : Option CodecState) {stops : List PublisherStop}
    (hstops : ∀ k, .finishing k ∈ stops → .finishing k ∈ s.stops) :
    NoGroup { s with session, encoder, stops } :=
  h.frame session encoder s.streams h.handlers fun k hk => h.stops k (hstops k hk)

/-- A call of `stop` ends the session and the encoder, and waits for no group to end. -/
theorem NoGroup.stop {s : Publisher} (h : s.NoGroup) : ∃ session stop,
    s.stop = ({ s with session }, stop) ∧ ∀ k, stop ≠ .finishing k := by
  rcases s.stop_cases with heq | heq | ⟨-, heq⟩
  · exact ⟨s.session, .flushing, heq, by simp⟩
  · exact ⟨s.session, .ended, heq, by simp⟩
  · exact ⟨false, .ended, heq.trans h.stopGroup, by simp⟩

theorem NoGroup.stopGoOn {s : Publisher} (h : s.NoGroup) {stop : PublisherStop}
    (hstop : stop ∈ s.stops) {r : Publisher × PublisherStop} (hr : s.stopGoOn stop = some r) :
    ∃ session encoder, r = ({ s with session, encoder }, .ended) := by
  obtain rfl | rfl | ⟨k, rfl, -⟩ := stopGoOn_cases hr
  · exact ⟨s.session, s.encoder, rfl⟩
  · exact ⟨false, none, NoGroup.stopGroup (h.setStops s.session none fun _ => id)⟩
  · exact absurd hstop (h.stops k)

theorem NoGroup.step {s s' : Publisher} {l : PublisherLabel} (h : s.NoGroup)
    (hs : s.step l = some s') : s'.NoGroup ∨ s'.HasGroup := by
  have hset {j k : Nat} (hk : .finishing k ∈ s.stops.set j PublisherStop.ended) :
      .finishing k ∈ s.stops :=
    (List.mem_or_eq_of_mem_set hk).resolve_right (by simp)
  cases stepped_of_step hs with
  | @chunk chunk =>
    obtain ⟨point, heq, hpoint⟩ := h.handleEncodedChunk chunk
    rw [heq]
    refine .inl (h.frame s.session s.encoder s.streams ?_ h.stops)
    exact List.forall_mem_append.mpr ⟨h.handlers, List.forall_mem_singleton.mpr hpoint⟩
  | @resume i handler _ hget hr =>
    have hnot := h.handlers handler (List.mem_of_getElem? hget)
    obtain ⟨chunk, point⟩ := handler
    cases point with
    | finishing k => exact absurd rfl (hnot k)
    | creating groupId =>
      obtain rfl := Option.some.inj hr
      exact .inl (h.setHandler i chunk _ (by simp))
    | opening k =>
      obtain rfl := Option.some.inj hr
      exact .inr (hasGroup_opened s k chunk.data)
    | writing =>
      obtain rfl := Option.some.inj hr
      exact .inl (h.setHandler i chunk s.streams (by simp))
    | written | rejected | dropped => cases hr
  | @reject i handler _ _ hfailed =>
    refine .inl (h.setHandler i handler.chunk s.streams fun k heq => ?_)
    subst heq
    cases hpoint : handler.point <;> simp [failed, hpoint] at hfailed
  | encoderFails => exact .inl (h.setStops s.session _ fun _ => id)
  | stop =>
    obtain ⟨session, stop, heq, hstop⟩ := h.stop
    simp only [heq]
    refine .inl (h.setStops session s.encoder fun k hk => ?_)
    rcases List.mem_append.mp hk with hk | hk
    · exact hk
    · exact absurd (List.mem_singleton.mp hk).symm (hstop k)
  | stopResume hget hr =>
    obtain ⟨session, encoder, rfl⟩ := h.stopGoOn (List.mem_of_getElem? hget) hr
    exact .inl (h.setStops session encoder fun k => hset)
  | stopReject => exact .inl (h.setStops s.session s.encoder fun k => hset)

/-- After any number of cycles the page has come to no group, or to one. -/
theorem Cycled.groups {s : Publisher} (h : s.Cycled) : s.NoGroup ∨ s.HasGroup := by
  refine Machine.Cycled.invariant (I := fun s : Publisher => s.NoGroup ∨ s.HasGroup)
    (.inl noGroup_loaded) (fun s hs => hs.imp NoGroup.start HasGroup.start)
    (fun s l s' hs hstep => ?_) h
  rcases hs with hs | hs
  · exact hs.step hstep
  · exact .inr (hs.step hstep)

/-! ### The next cycle of the publisher -/

theorem mem_given {chunk : EncodedVideoChunk} {ls : List PublisherLabel} :
    chunk ∈ given ls ↔ .chunk chunk ∈ ls := by
  rw [given, List.mem_filterMap]
  constructor
  · rintro ⟨l, hl, heq⟩
    cases l with
    | chunk other =>
      obtain rfl := Option.some.inj heq
      exact hl
    | resume | reject | encoderFails | stop | stopResume | stopReject => cases heq
  · exact fun h => ⟨_, h, rfl⟩

/-- A page that has come to no group has nothing that the next cycle could depend on. -/
theorem NoGroup.independent {s : Publisher} (h : s.NoGroup) (chunks : List EncodedVideoChunk) :
    s.Independent chunks := by
  intro ls _
  rw [h.start_eq, Machine.run_map (step_behind s.streams), sent_behind]
  rfl

end Publisher

theorem GroupStream.sent_close (stream : GroupStream) :
    (stream.call .close).sent = stream.sent := by
  have hall {calls : List WriterCall} (p : WriterCall → Bool)
      (hlength : (calls.takeWhile p).length = calls.length) : calls = calls.takeWhile p :=
    ((List.takeWhile_prefix p).eq_of_length hlength).symm
  simpa [sent, call, List.takeWhile_append] using hall _

namespace Publisher

theorem sent_updateStream {f : GroupStream → GroupStream}
    (hf : ∀ stream, (f stream).sent = stream.sent) (s : Publisher) (k : Nat) :
    (s.updateStream k f).sent = s.sent :=
  Table.map_modify hf s.streams k

theorem stopGroup_keeps (s : Publisher) :
    s.stopGroup.1.handlers = s.handlers ∧ s.stopGroup.1.sent = s.sent := by
  unfold stopGroup
  split
  · exact ⟨rfl, sent_updateStream GroupStream.sent_close s _⟩
  · exact ⟨rfl, rfl⟩

theorem stop_keeps (s : Publisher) : s.stop.1.handlers = s.handlers ∧ s.stop.1.sent = s.sent := by
  rcases s.stop_cases with heq | heq | ⟨-, heq⟩
  · rw [heq]
    exact ⟨rfl, rfl⟩
  · rw [heq]
    exact ⟨rfl, rfl⟩
  · rw [heq]
    exact s.stopGroup_keeps

theorem stopGoOn_keeps {s : Publisher} {stop : PublisherStop} {r : Publisher × PublisherStop}
    (hr : s.stopGoOn stop = some r) : r.1.handlers = s.handlers ∧ r.1.sent = s.sent := by
  obtain rfl | rfl | ⟨k, -, rfl⟩ := stopGoOn_cases hr
  · exact ⟨rfl, rfl⟩
  · exact stopGroup_keeps { s with encoder := none }
  · exact ⟨rfl, sent_updateStream (f := GroupStream.finish) (fun _ => rfl) s k⟩

/-- Without a key chunk nothing is sent. -/
theorem sent_run_of_noKey {s : Publisher} (hhandlers : s.handlers = []) {ls : List PublisherLabel}
    (hls : ∀ chunk ∈ given ls, chunk.type ≠ .key) : (publisher.run s ls).sent = s.sent := by
  have hlabels : ∀ l ∈ ls, ∀ chunk, l = .chunk chunk → chunk.type ≠ .key := by
    rintro _ hl chunk rfl
    exact hls chunk (mem_given.mpr hl)
  refine (Machine.keeps (I := fun t => t.handlers = [] ∧ t.sent = s.sent) (fun t l t' h hl hs => ?_)
    ⟨hhandlers, rfl⟩ (Machine.meets_of_labels s hlabels)).2
  obtain ⟨hnone, hsent⟩ := h
  cases stepped_of_step hs with
  | @chunk chunk _ hfirst => exact absurd (hfirst hnone) (hl chunk rfl)
  | resume hget | reject hget =>
    rw [hnone] at hget
    cases hget
  | encoderFails | stopReject => exact ⟨hnone, hsent⟩
  | stop => exact ⟨t.stop_keeps.1.trans hnone, t.stop_keeps.2.trans hsent⟩
  | stopResume _ hr => exact ⟨(stopGoOn_keeps hr).1.trans hnone, (stopGoOn_keeps hr).2.trans hsent⟩

theorem independent_of_noKey (s : Publisher) {chunks : List EncodedVideoChunk}
    (h : ∀ chunk ∈ chunks, chunk.type ≠ .key) : s.Independent chunks := by
  intro ls hls
  have hgiven : ∀ chunk ∈ given ls, chunk.type ≠ .key := fun chunk hmem => h chunk (hls.subset hmem)
  rw [sent_run_of_noKey rfl hgiven, sent_run_of_noKey rfl hgiven]
  exact (List.append_nil _).symm

/-- A page that has been loaded opens a stream for the first key chunk. -/
theorem length_sent_loaded {chunk : EncodedVideoChunk} (hkey : chunk.type = .key) :
    (publisher.run loaded.start [.chunk chunk, .resume 0]).sent.length = 1 := by
  cases chunk with
  | mk type data =>
    obtain rfl : type = .key := hkey
    rfl

theorem openOrWrite_key {s : Publisher} {chunk : EncodedVideoChunk} (hkey : chunk.type = .key)
    (hstarted : s.groupStarted = true) : s.openOrWrite chunk = (s, s.openSubgroup) := by
  unfold openOrWrite
  split
  · rfl
  · rw [if_pos ⟨hkey, hstarted⟩]

/-- A call for a key chunk that has waited for the end of a group opens nothing yet. -/
theorem length_resume_finishing {t : Publisher} {chunk : EncodedVideoChunk} {k : Nat}
    (hkey : chunk.type = .key) (hhandlers : t.handlers = [{ chunk, point := .finishing k }])
    (hstarted : t.groupStarted = true) :
    (publisher.next t (.resume 0)).streams.length = t.streams.length := by
  let ended : Publisher :=
    { t.updateStream k GroupStream.finish with
      streamCount := t.streamCount + 1, groupId := t.groupId + 1 }
  have hgoOn : t.goOn chunk (.finishing k) = some (ended, ended.openSubgroup) :=
    congrArg some (openOrWrite_key hkey hstarted)
  have hstep : t.step (.resume 0) = some (setHandler 0 chunk (ended, ended.openSubgroup)) := by
    rw [step, hhandlers, List.getElem?_cons_zero, Option.bind_some, hgoOn, Option.map_some]
  rw [Machine.next_of_step hstep]
  exact t.length_updateStream k GroupStream.finish

/-- A page that has come to a group finishes it for the next key chunk, and opens nothing. -/
theorem HasGroup.length_sent {s : Publisher} (h : s.HasGroup) {chunk : EncodedVideoChunk}
    (hkey : chunk.type = .key) :
    (publisher.run s.start [.chunk chunk, .resume 0]).sent.length = s.sent.length := by
  obtain ⟨hcurrent, hstarted⟩ := h
  obtain ⟨k, hk⟩ := Option.isSome_iff_exists.mp hcurrent
  have hhandled : s.start.handleEncodedChunk chunk =
      (s.start.close k, if s.start.closing k then .dropped else .finishing k) := by
    simp [Publisher.handleEncodedChunk, Publisher.start, hkey, hk, hstarted]
  have hgiven : publisher.next s.start (.chunk chunk) =
      addHandler chunk (s.start.close k, if s.start.closing k then .dropped else .finishing k) := by
    apply Machine.next_of_step
    rw [← hhandled]
    exact if_pos ⟨rfl, fun _ => hkey⟩
  rw [Machine.run_cons, hgiven, Machine.run_cons, Machine.run_nil, sent, sent, List.length_map,
    List.length_map]
  split
  · -- the call has thrown: it does not go on
    rw [Machine.next_of_none rfl]
    exact length_updateStream ..
  · exact (length_resume_finishing (t := addHandler chunk (s.start.close k, .finishing k)) hkey rfl
      hstarted).trans (length_updateStream ..)

/-- The next cycle of a page that has come to a group is not what it would be, if there is a key
chunk. -/
theorem HasGroup.not_independent {s : Publisher} (h : s.HasGroup) {chunks : List EncodedVideoChunk}
    {chunk : EncodedVideoChunk} (hmem : chunk ∈ chunks) (hkey : chunk.type = .key) :
    ¬s.Independent chunks := by
  intro hindependent
  -- the chunks in front of the first key chunk are not given
  obtain ⟨first, hfind⟩ : ∃ first, chunks.find? (·.type = .key) = some first :=
    Option.isSome_iff_exists.mp (List.find?_isSome.mpr ⟨chunk, hmem, by simpa using hkey⟩)
  obtain ⟨hfirst, front, rest, rfl, hfront⟩ := List.find?_eq_some_iff_append.mp hfind
  have hskipped {t : Publisher} (hhandlers : t.handlers = []) :
      publisher.run t (front.map .chunk) = t := by
    refine Machine.run_fixed fun l hl => ?_
    obtain ⟨other, hother, rfl⟩ := List.mem_map.mp hl
    refine Machine.next_of_none (if_neg fun hgiven => ?_)
    have hnot := hfront other hother
    simp [hgiven.2 hhandlers] at hnot
  have hgiven : given (front.map .chunk ++ [.chunk first, .resume 0]) = front ++ [first] := by
    simp [given, List.filterMap_append, List.filterMap_map]
  have hsame := hindependent (front.map .chunk ++ [.chunk first, .resume 0])
    ⟨rest, by simp [hgiven]⟩
  rw [Machine.run_append, Machine.run_append, hskipped rfl, hskipped rfl] at hsame
  have hlengths := congrArg List.length hsame
  rw [List.length_append, h.length_sent (by simpa using hfirst),
    length_sent_loaded (by simpa using hfirst)] at hlengths
  omega

/-- The next cycle is what it would be exactly if the page has come to no group in the cycles before
it, or the encoder gives no key chunk. -/
theorem Cycled.independent_iff {s : Publisher} (h : s.Cycled) {chunks : List EncodedVideoChunk} :
    s.Independent chunks ↔ s.groupStarted = false ∨ ∀ chunk ∈ chunks, chunk.type ≠ .key := by
  rcases h.groups with hnone | hgroup
  · exact iff_of_true (hnone.independent chunks) (.inl hnone.groupStarted)
  · constructor
    · intro hindependent
      refine .inr fun chunk hmem hkey => hgroup.not_independent hmem hkey hindependent
    · rintro (hnot | hnoKey)
      · exact absurd (hnot.symm.trans hgroup.2) Bool.false_ne_true
      · exact s.independent_of_noKey hnoKey

end Publisher

/-! ### Cycles of the subscriber -/

namespace Subscriber

/-- The groups that `receiveLoop` has had processed, with their streams. -/
def processed (s : Subscriber) : List (SubgroupHeader × Chunked) :=
  s.calls.map fun call => (call.header, call.stream)

/-- The page that has been loaded. -/
def loaded : Subscriber where
  session := false
  decoder := none
  activeGroupId := -1
  activeAbort := none
  receiving := false
  calls := []
  stops := []
  decoded := []

/-- `start`, up to where `receiveLoop` waits for an event.  The calls are those of the cycle that
begins: the earlier ones have returned, and to abort one of them does nothing any more. -/
def start (s : Subscriber) : Subscriber :=
  { s with
    session := true
    decoder := some .configured
    receiving := true
    calls := []
    stops := []
    decoded := [] }

theorem start_loaded : loaded.start = subscriber.init := rfl

/-- `stop` has come to its end.  What has waited for the transport is settled when the session is
closed. -/
structure Stopped (s : Subscriber) : Prop where
  session : s.session = false
  decoder : s.decoder = none
  receiving : s.receiving = false
  calls : ∀ call ∈ s.calls, call.point = .returned
  stops : ∀ stop ∈ s.stops, stop = .ended

/-- The page after any number of cycles. -/
def Cycled (s : Subscriber) : Prop := subscriber.Cycled start Stopped loaded s

/-- The events that the session gives. -/
def received (ls : List SubscriberLabel) : List SessionEvent :=
  ls.filterMap fun
    | .event event => some event
    | _ => none

/-- The next cycle processes the groups that a page does which has just been loaded, if the session
gives the same events and what the calls wait for comes in the same order. -/
def Independent (s : Subscriber) (events : List SessionEvent) : Prop :=
  ∀ ls, received ls <+: events →
    (subscriber.run s.start ls).processed = (subscriber.run loaded.start ls).processed

/-- The ID of the group of the first data stream. -/
def firstGroupId (events : List SessionEvent) : Option Nat :=
  events.findSome? fun
    | .dataStream header _ => some header.groupId
    | .subscribe _ => none

/-- The page with another active group. -/
def withActive (id : Int) (abort : Option Nat) (s : Subscriber) : Subscriber :=
  { s with activeGroupId := id, activeAbort := abort }

section

variable (id : Int) (abort : Option Nat) (s : Subscriber)

@[simp] theorem withActive_decoder : (s.withActive id abort).decoder = s.decoder := rfl

@[simp] theorem withActive_receiving : (s.withActive id abort).receiving = s.receiving := rfl

@[simp] theorem withActive_calls : (s.withActive id abort).calls = s.calls := rfl

@[simp] theorem withActive_stops : (s.withActive id abort).stops = s.stops := rfl

@[simp] theorem withActive_decoderReady :
    (s.withActive id abort).decoderReady = s.decoderReady := rfl

end

theorem start_eq (s : Subscriber) :
    s.start = loaded.start.withActive s.activeGroupId s.activeAbort := rfl

/-- Nothing is processed, and no group is active. -/
structure Waits (s : Subscriber) : Prop where
  calls : s.calls = []
  activeGroupId : s.activeGroupId = -1

theorem waits_start : loaded.start.Waits := ⟨rfl, rfl⟩

theorem next_event {s : Subscriber} (hreceiving : s.receiving = true) (event : SessionEvent) :
    subscriber.next s (.event event) = s.receive event :=
  Machine.next_of_step (if_pos hreceiving)

theorem Waits.waiting {s : Subscriber} (h : s.Waits) (i : Nat) (point : GroupPoint) :
    s.waiting i point = none := by
  rw [Subscriber.waiting, h.calls]
  rfl

theorem stop_withActive (id : Int) (abort : Option Nat) (s : Subscriber) :
    (s.withActive id abort).stop = s.stop.withActive id abort := by
  unfold stop
  rw [withActive_decoder]
  split
  · rfl
  · rfl
  · rfl

theorem stopFlushed_withActive (id : Int) (abort : Option Nat) (s : Subscriber) (j : Nat) :
    (s.withActive id abort).stopFlushed j = (s.stopFlushed j).withActive id abort := by
  unfold stopFlushed
  rw [withActive_decoder]
  split
  · rfl
  · rfl
  · rfl

/-- While nothing is processed, the active group makes a difference to data streams only. -/
theorem Waits.step_withActive {s : Subscriber} (h : s.Waits) {l : SubscriberLabel}
    (hl : ∀ header reader, l ≠ .event (.dataStream header reader)) (id : Int) (abort : Option Nat) :
    (s.withActive id abort).step l = (s.step l).map (withActive id abort) := by
  have hwaiting (i : Nat) (point : GroupPoint) :
      (s.withActive id abort).waiting i point = none := by
    rw [Subscriber.waiting, withActive_calls, h.calls]
    rfl
  cases l with
  | event event =>
    cases event with
    | subscribe message =>
      rw [step, step, withActive_receiving, Option.map_if]
      rfl
    | dataStream header reader => exact absurd rfl (hl header reader)
  | endOfEvents =>
    rw [step, step, withActive_receiving, Option.map_if]
    rfl
  | flushed i | flushFails i | read i | readFails i | cancelled i =>
    rw [step, step, hwaiting, h.waiting]
    rfl
  | decoderFails =>
    rw [step, step, withActive_decoderReady, Option.map_if]
    rfl
  | stop => exact congrArg some (stop_withActive id abort s)
  | stopFlushed j =>
    rw [step, step, withActive_stops, stopFlushed_withActive, Option.map_if]
  | stopFlushFails j =>
    rw [step, step, withActive_stops, Option.map_if]
    rfl

/-- A step that takes no data stream has nothing processed, and events do not come again when they
have ended. -/
theorem Waits.step {s s' : Subscriber} (h : s.Waits) {l : SubscriberLabel}
    (hl : ∀ header reader, l ≠ .event (.dataStream header reader)) (hs : s.step l = some s') :
    s'.Waits ∧ (s'.receiving = true → s.receiving = true) := by
  obtain ⟨hcalls, hid⟩ := h
  cases l with
  | event event =>
    cases event with
    | subscribe message =>
      obtain ⟨hreceiving, rfl⟩ := Option.ite_some_none_eq_some.mp hs
      exact ⟨⟨hcalls, hid⟩, fun _ => hreceiving⟩
    | dataStream header reader => exact absurd rfl (hl header reader)
  | endOfEvents =>
    obtain ⟨hreceiving, rfl⟩ := Option.ite_some_none_eq_some.mp hs
    exact ⟨⟨hcalls, hid⟩, fun _ => hreceiving⟩
  | flushed i | flushFails i | read i | readFails i | cancelled i =>
    obtain ⟨call, hwaiting, -⟩ := Option.map_eq_some_iff.mp hs
    rw [Waits.waiting ⟨hcalls, hid⟩] at hwaiting
    cases hwaiting
  | decoderFails =>
    obtain ⟨-, rfl⟩ := Option.ite_some_none_eq_some.mp hs
    exact ⟨⟨hcalls, hid⟩, id⟩
  | stop =>
    obtain rfl := Option.some.inj hs
    obtain ⟨session, stop, heq⟩ := s.stop_eq
    rw [heq]
    exact ⟨⟨hcalls, hid⟩, id⟩
  | stopFlushed j =>
    obtain ⟨-, rfl⟩ := Option.ite_some_none_eq_some.mp hs
    obtain ⟨session, decoder, -, heq⟩ := s.stopFlushed_eq j
    rw [heq]
    exact ⟨⟨hcalls, hid⟩, id⟩
  | stopFlushFails j =>
    obtain ⟨-, rfl⟩ := Option.ite_some_none_eq_some.mp hs
    exact ⟨⟨hcalls, hid⟩, id⟩

/-- The first group is processed if it is later than the active one, and becomes the active one. -/
theorem Waits.receive_withActive {s : Subscriber} (h : s.Waits) {id : Int} {header : SubgroupHeader}
    (reader : Chunked) (hlt : id < header.groupId) (abort : Option Nat) :
    (s.withActive id abort).receive (.dataStream header reader) =
      receiveNext { s with
        activeGroupId := header.groupId
        activeAbort := some 0
        calls := [s.processGroup header reader] } := by
  have hnone : (s.withActive id abort).abortActive = [] := by
    rw [abortActive, withActive_calls, h.calls]
    split
    · exact List.modify_nil ..
    · rfl
  rw [receive, if_neg (Int.not_le.mpr (show (s.withActive id abort).activeGroupId < _ from hlt)),
    hnone, withActive_calls, h.calls]
  rfl

theorem firstGroupId_received_cons {l : SubscriberLabel} (ls : List SubscriberLabel)
    (hl : ∀ header reader, l ≠ .event (.dataStream header reader)) :
    firstGroupId (received (l :: ls)) = firstGroupId (received ls) := by
  cases l with
  | event event =>
    cases event with
    | subscribe message => rfl
    | dataStream header reader => exact absurd rfl (hl header reader)
  | endOfEvents | flushed | flushFails | read | readFails | cancelled | decoderFails | stop
  | stopFlushed | stopFlushFails => rfl

/-- A page with an active group processes what one without does, if the first group is later. -/
theorem Waits.run_withActive {s : Subscriber} (h : s.Waits) {id : Int} (abort : Option Nat)
    {ls : List SubscriberLabel}
    (hfirst : s.receiving = true → ∀ first ∈ firstGroupId (received ls), id < (first : Int)) :
    (subscriber.run (s.withActive id abort) ls).processed = (subscriber.run s ls).processed := by
  induction ls generalizing s with
  | nil => rfl
  | cons l ls ih =>
    rw [Machine.run_cons, Machine.run_cons]
    by_cases hdata : ∃ header reader, l = .event (.dataStream header reader)
    · obtain ⟨header, reader, rfl⟩ := hdata
      cases hreceiving : s.receiving with
      | false =>
        have hended : ¬s.receiving = true := by simp [hreceiving]
        have hended' : ¬(s.withActive id abort).receiving = true := hended
        rw [Machine.next_of_none (if_neg hended), Machine.next_of_none (if_neg hended')]
        exact ih h fun htrue => absurd htrue hended
      | true =>
        -- the group is processed in both runs, and nothing is left of what was active
        have hlt : id < header.groupId := hfirst hreceiving header.groupId rfl
        have hfresh : s.activeGroupId < header.groupId := by
          rw [h.activeGroupId]
          omega
        have hsame : (s.withActive id abort).receive (.dataStream header reader) =
            s.receive (.dataStream header reader) :=
          (h.receive_withActive reader hlt abort).trans
            (h.receive_withActive reader hfresh s.activeAbort).symm
        rw [next_event hreceiving,
          next_event (show (s.withActive id abort).receiving = true from hreceiving), hsame]
    · have hl (header : SubgroupHeader) (reader : Chunked) :
          l ≠ .event (.dataStream header reader) := fun heq => hdata ⟨header, reader, heq⟩
      rw [firstGroupId_received_cons ls hl] at hfirst
      have hstep := h.step_withActive hl id abort
      cases hs : s.step l with
      | none =>
        rw [hs] at hstep
        rw [Machine.next_of_none hstep, Machine.next_of_none (show subscriber.step s l = _ from hs)]
        exact ih h hfirst
      | some s' =>
        rw [hs] at hstep
        obtain ⟨hwaits, hreceiving⟩ := h.step hl hs
        rw [Machine.next_of_step hstep, Machine.next_of_step (show subscriber.step s l = _ from hs)]
        exact ih hwaits fun htrue => hfirst (hreceiving htrue)

/-- A first group that is not later than the active one is not processed. -/
theorem not_independent_of_le {s : Subscriber} {events : List SessionEvent} {first : Nat}
    (hfirst : firstGroupId events = some first) (hle : (first : Int) ≤ s.activeGroupId) :
    ¬s.Independent events := by
  intro hindependent
  obtain ⟨front, event, rest, rfl, hevent, hfront⟩ := List.findSome?_eq_some_iff.mp hfirst
  cases event with
  | subscribe message => cases hevent
  | dataStream header reader =>
    obtain rfl := Option.some.inj hevent
    have hskipped {t : Subscriber} (hsession : t.session = true) (hreceiving : t.receiving = true) :
        subscriber.run t (front.map .event) = t := by
      refine Machine.run_fixed fun l hl => ?_
      obtain ⟨other, hother, rfl⟩ := List.mem_map.mp hl
      cases other with
      | subscribe message =>
        rw [next_event hreceiving]
        exact congrArg (fun receiving => { t with receiving }) (hsession.trans hreceiving.symm)
      | dataStream header reader => cases hfront _ hother
    have hsame := hindependent (front.map .event ++ [.event (.dataStream header reader)])
      ⟨rest, by simp [received, List.filterMap_append, List.filterMap_map]⟩
    rw [Machine.run_append, Machine.run_append, hskipped rfl rfl, hskipped rfl rfl] at hsame
    have hstale : subscriber.next s.start (.event (.dataStream header reader)) = s.start := by
      rw [next_event rfl, receive,
        if_pos (show (header.groupId : Int) ≤ s.start.activeGroupId from hle)]
      rfl
    have hfresh : (subscriber.next loaded.start (.event (.dataStream header reader))).processed =
        [(header, reader)] := by
      have hlater : loaded.start.activeGroupId < header.groupId := by
        show (-1 : Int) < header.groupId
        omega
      rw [next_event rfl, receive, if_neg (Int.not_le.mpr hlater)]
      rfl
    simp only [Machine.run_cons, Machine.run_nil, hstale, hfresh] at hsame
    cases hsame

/-- The next cycle is what it would be exactly if its first group is later than the last one that
the page has come to in the cycles before it. -/
theorem independent_iff {s : Subscriber} {events : List SessionEvent} :
    s.Independent events ↔ ∀ first ∈ firstGroupId events, s.activeGroupId < (first : Int) := by
  constructor
  · intro hindependent first hfirst
    by_contra hnot
    exact not_independent_of_le hfirst (Int.not_lt.mp hnot) hindependent
  · intro hlater ls hls
    rw [start_eq]
    refine waits_start.run_withActive s.activeAbort fun _ first hfirst => ?_
    exact hlater first (hls.findSome?_eq_some hfirst)

end Subscriber

/-! ### Cycles of both pages -/

/-- A publisher and a subscriber page after any number of cycles. -/
structure Pages where
  pub : Publisher
  sub : Subscriber
  pubCycled : pub.Cycled
  subCycled : sub.Cycled

namespace Pages

/-- A data stream of the group. -/
def groupStream (groupId : Nat) : SessionEvent :=
  .dataStream
    { trackAlias := 1, groupId, hasProperties := false, endOfGroup := true, subgroupId := some 0,
      publisherPriority := none }
    { chunks := [], ending := .finished }

/-- One cycle in which one group is sent, and one is received. -/
def oneGroup : Pages where
  pub := publisher.run Publisher.loaded.start
    [.chunk ⟨.key, [1]⟩, .resume 0, .resume 0, .resume 0, .stop, .stopResume 0, .stopResume 0]
  sub := subscriber.run Subscriber.loaded.start
    [.event (groupStream 5), .flushed 0, .readFails 0, .stop, .stopFlushed 0, .endOfEvents]
  pubCycled := .cycle .loaded _ ⟨rfl, rfl, by decide, by decide⟩
  subCycled := .cycle .loaded _ ⟨rfl, rfl, rfl, by decide, by decide⟩

end Pages

end Moqt.Web
