import Moqt.Library.Machine
import Moqt.Library.Table
import Moqt.Web.DataStream
import Moqt.Web.Video

/-! The browser publisher: each chunk of the encoder is given to a call of `handleEncodedChunk`, and
the encoder does not wait for it.  The calls run one at a time, each up to its next `await`; the
operations of the transport that they wait for are settled in any order.  The capture of the frames
and the log are left out. -/

namespace Moqt.Web

open Library

/-! ### The page -/

/-- A call on the writer of a stream. -/
inductive WriterCall where
  | write (buf : Bytes)
  | close
deriving DecidableEq, Repr

/-- A stream of a group, with the calls on its writer.  It is finished when `close` is settled. -/
structure GroupStream where
  groupId : Nat
  calls : List WriterCall
  finished : Bool
deriving DecidableEq, Repr

/-- `close` has been called. -/
def GroupStream.closing (stream : GroupStream) : Bool := stream.calls.contains .close

def GroupStream.call (stream : GroupStream) (call : WriterCall) : GroupStream :=
  { stream with calls := stream.calls ++ [call] }

def GroupStream.finish (stream : GroupStream) : GroupStream := { stream with finished := true }

/-- What `openSubgroup` writes. -/
def groupHeader (groupId : Nat) : Bytes :=
  encodeSubgroupHeader
    { trackAlias := 1, groupId, hasProperties := false, endOfGroup := true, subgroupId := some 0,
      publisherPriority := none }

/-- What `writeObject` writes. -/
def groupObject (payload : Bytes) : Bytes :=
  encodeObjectHeader { objectIdDelta := 0, payloadLength := payload.length } ++ payload

/-- Where a call of `handleEncodedChunk` waits, or how it has ended. -/
inductive HandlerPoint where
  /-- In `finish` of the stream. -/
  | finishing (stream : Nat)
  /-- In `openSubgroup`, for the new stream. -/
  | creating (groupId : Nat)
  /-- In `openSubgroup`, for the header of the stream. -/
  | opening (stream : Nat)
  /-- In `writeObject`. -/
  | writing
  /-- `writeObject` is settled. -/
  | written
  /-- The transport has failed in front of `writeObject`. -/
  | rejected
  /-- There is no session, or the call has thrown because a writer is closed. -/
  | dropped
deriving DecidableEq, Repr

/-- A call of `handleEncodedChunk`. -/
structure Handler where
  chunk : EncodedVideoChunk
  point : HandlerPoint
deriving DecidableEq, Repr

/-- The call has come to its `writeObject`. -/
def Handler.wrote (handler : Handler) : Bool :=
  handler.point = .writing || handler.point = .written

/-- Where a call of `stop` in the publisher waits. -/
inductive PublisherStop where
  | flushing
  | finishing (stream : Nat)
  | ended
deriving DecidableEq, Repr

/-- The variables of the page, the streams in the order of their creation, and the calls that have
been made. -/
structure Publisher where
  session : Bool
  encoder : Option CodecState
  currentGroup : Option Nat
  groupId : Nat
  streamCount : Nat
  groupStarted : Bool
  streams : List GroupStream
  handlers : List Handler
  stops : List PublisherStop
deriving DecidableEq, Repr

inductive PublisherLabel where
  /-- The encoder has a chunk. -/
  | chunk (chunk : EncodedVideoChunk)
  /-- What a call of `handleEncodedChunk` waits for is done. -/
  | resume (i : Nat)
  /-- It fails. -/
  | reject (i : Nat)
  /-- The encoder fails, which closes it. -/
  | encoderFails
  | stop
  | stopResume (j : Nat)
  | stopReject (j : Nat)

namespace Publisher

/-- The encoder is there and gives chunks. -/
def encoderReady (s : Publisher) : Bool := s.encoder == some .configured

def updateStream (s : Publisher) (k : Nat) (f : GroupStream → GroupStream) : Publisher :=
  { s with streams := s.streams.modify k f }

def closing (s : Publisher) (k : Nat) : Bool := s.streams[k]?.any GroupStream.closing

/-- `writeObject` on a stream.  The writer refuses it when `close` has been called. -/
def writeObject (s : Publisher) (k : Nat) (payload : Bytes) : Publisher × HandlerPoint :=
  (s.updateStream k fun stream => stream.call (.write (groupObject payload)),
    if s.closing k then .dropped else .writing)

/-- `close` on the writer of a stream. -/
def close (s : Publisher) (k : Nat) : Publisher := s.updateStream k fun stream => stream.call .close

/-- `session.openSubgroup(1, groupId, 0)` -/
def openSubgroup (s : Publisher) : HandlerPoint :=
  if s.session then .creating s.groupId else .dropped

/-- `handleEncodedChunk` from its second `if` on, up to the next `await`. -/
def openOrWrite (s : Publisher) (chunk : EncodedVideoChunk) : Publisher × HandlerPoint :=
  match s.currentGroup with
  | none => (s, s.openSubgroup)
  | some k =>
    if chunk.type = .key ∧ s.groupStarted = true then (s, s.openSubgroup)
    else s.writeObject k chunk.data

/-- `handleEncodedChunk`, up to its first `await`. -/
def handleEncodedChunk (s : Publisher) (chunk : EncodedVideoChunk) : Publisher × HandlerPoint :=
  if s.session = false then (s, .dropped)
  else if chunk.type = .key ∧ s.groupStarted = true then
    match s.currentGroup with
    | some k => (s.close k, if s.closing k then .dropped else .finishing k)
    | none => openOrWrite { s with groupId := s.groupId + 1 } chunk
  else s.openOrWrite chunk

/-- What a call does when it goes on, up to its next `await`. -/
def goOn (s : Publisher) (chunk : EncodedVideoChunk) :
    HandlerPoint → Option (Publisher × HandlerPoint)
  | .finishing k =>
    let s := s.updateStream k GroupStream.finish
    some (openOrWrite { s with streamCount := s.streamCount + 1, groupId := s.groupId + 1 } chunk)
  | .creating groupId =>
    let stream : GroupStream :=
      { groupId, calls := [.write (groupHeader groupId)], finished := false }
    some ({ s with streams := s.streams ++ [stream] }, .opening s.streams.length)
  | .opening k =>
    some (writeObject { s with currentGroup := some k, groupStarted := true } k chunk.data)
  | .writing => some (s, .written)
  | _ => none

/-- How a call ends when what it waits for fails. -/
def failed : HandlerPoint → Option HandlerPoint
  | .finishing _ | .creating _ | .opening _ => some .rejected
  | .writing => some .written
  | _ => none

/-- `stop` from where it finishes the group on, up to the next `await`. -/
def stopGroup (s : Publisher) : Publisher × PublisherStop :=
  match s.currentGroup with
  | some k => (s.close k, if s.closing k then .ended else .finishing k)
  | none => ({ s with session := false }, .ended)

/-- `stop`, up to its first `await`.  `flush` throws if the encoder is not configured. -/
def stop (s : Publisher) : Publisher × PublisherStop :=
  match s.encoder with
  | some .configured => (s, .flushing)
  | some _ => (s, .ended)
  | none => s.stopGroup

/-- What a call of `stop` does when it goes on.  `close` throws if there is no encoder any more, or
if it is closed. -/
def stopGoOn (s : Publisher) : PublisherStop → Option (Publisher × PublisherStop)
  | .flushing =>
    match s.encoder with
    | none | some .closed => some (s, .ended)
    | some _ => some (stopGroup { s with encoder := none })
  | .finishing k =>
    let s := s.updateStream k GroupStream.finish
    some ({ s with streamCount := s.streamCount + 1, session := false }, .ended)
  | .ended => none

def addHandler (chunk : EncodedVideoChunk) : Publisher × HandlerPoint → Publisher
  | (s, point) => { s with handlers := s.handlers ++ [{ chunk, point }] }

def setHandler (i : Nat) (chunk : EncodedVideoChunk) : Publisher × HandlerPoint → Publisher
  | (s, point) => { s with handlers := s.handlers.set i { chunk, point } }

def setStop (j : Nat) : Publisher × PublisherStop → Publisher
  | (s, stop) => { s with stops := s.stops.set j stop }

def step (s : Publisher) : PublisherLabel → Option Publisher
  | .chunk chunk =>
    -- the first chunk of an encoder is a key chunk
    if s.encoderReady ∧ (s.handlers = [] → chunk.type = .key) then
      some (addHandler chunk (s.handleEncodedChunk chunk))
    else none
  | .resume i =>
    s.handlers[i]?.bind fun h => (s.goOn h.chunk h.point).map (setHandler i h.chunk)
  | .reject i =>
    s.handlers[i]?.bind fun h => (failed h.point).map fun point => setHandler i h.chunk (s, point)
  | .encoderFails => if s.encoderReady then some { s with encoder := some .closed } else none
  | .stop =>
    let (s, stop) := s.stop
    some { s with stops := s.stops ++ [stop] }
  | .stopResume j => s.stops[j]?.bind fun stop => (s.stopGoOn stop).map (setStop j)
  | .stopReject j =>
    s.stops[j]?.bind fun stop => if stop = .ended then none else some (setStop j (s, .ended))

end Publisher

/-- The page from where the encoder has been configured on. -/
def publisher : Machine Publisher PublisherLabel where
  init :=
    { session := true, encoder := some .configured, currentGroup := none, groupId := 0,
      streamCount := 0, groupStarted := false, streams := [], handlers := [], stops := [] }
  step := Publisher.step

/-! ### Groups on streams -/

namespace GroupStream

/-- What is called on the writer of a stream that carries these chunks.  Nothing is written behind
`close`. -/
def Carries (stream : GroupStream) (chunks : List EncodedVideoChunk) : Prop :=
  ∃ closes, stream.calls = .write (groupHeader stream.groupId) ::
    chunks.map (fun chunk => .write (groupObject chunk.data)) ++ List.replicate closes .close

/-- The stream has been finished. -/
def Ended (stream : GroupStream) : Prop := stream.finished = true ∧ stream.closing = true

theorem Carries.write {stream : GroupStream} {chunks : List EncodedVideoChunk}
    (h : stream.Carries chunks) (hopen : stream.closing = false) (chunk : EncodedVideoChunk) :
    (stream.call (.write (groupObject chunk.data))).Carries (chunks ++ [chunk]) := by
  obtain ⟨closes, hcalls⟩ := h
  cases closes with
  | zero => exact ⟨0, by simp [call, hcalls]⟩
  | succ closes => simp [closing, hcalls, List.replicate_succ] at hopen

theorem Carries.close {stream : GroupStream} {chunks : List EncodedVideoChunk}
    (h : stream.Carries chunks) : (stream.call .close).Carries chunks := by
  obtain ⟨closes, hcalls⟩ := h
  exact ⟨closes + 1, by simp [call, hcalls, List.replicate_succ']⟩

theorem closing_call_write (stream : GroupStream) (buf : Bytes) :
    (stream.call (.write buf)).closing = stream.closing := by
  simp [closing, call]

theorem closing_call_close (stream : GroupStream) : (stream.call .close).closing = true := by
  simp [closing, call]

end GroupStream

namespace Publisher

/-- The chunks that have been handed over. -/
def chunks (s : Publisher) : List EncodedVideoChunk := s.handlers.map Handler.chunk

/-- Each group is on a stream of its own, as far as it has been written: its key chunk, and then the
others, in the order in which the encoder has given them.  Every stream but the last one is
finished, and no chunk is dropped. -/
structure KeepsGroupsWhole (s : Publisher) : Prop where
  oneStream : (s.streams.map GroupStream.groupId).Nodup
  carried : ∃ written, List.Forall₂ GroupStream.Carries s.streams written ∧
    List.Forall₂ (· <+: ·) written ((groupsOf s.chunks).take s.streams.length) ∧
    written.flatten = (s.handlers.filter Handler.wrote).map Handler.chunk
  keyFirst : ∀ group ∈ groupsOf s.chunks, ∃ first rest, group = asChunks (first :: rest)
  finished : ∀ stream ∈ s.streams.dropLast, stream.finished = true
  kept : ∀ h ∈ s.handlers, h.point ≠ .dropped

/-- A chunk is handed over when the calls for all earlier ones have come to their `writeObject`:
none of them is in `finish` or `openSubgroup`, or has failed there. -/
def WrittenBefore (s : Publisher) : PublisherLabel → Prop
  | .chunk _ => ∀ h ∈ s.handlers, h.wrote = true
  | _ => True

instance (s : Publisher) (l : PublisherLabel) : Decidable (s.WrittenBefore l) :=
  match l with
  | .chunk _ => inferInstanceAs (Decidable (∀ h ∈ s.handlers, h.wrote = true))
  | .resume _ | .reject _ | .encoderFails | .stop | .stopResume _ | .stopReject _ => isTrue trivial

/-- The variables about the current group, which is the last one of `n` streams. -/
def Current (s : Publisher) : Nat → Prop
  | 0 => s.currentGroup = none ∧ s.groupStarted = false
  | n + 1 => s.currentGroup = some n ∧ s.groupStarted = true

/-- Streams in the order of their groups, all finished but the last one. -/
structure Ordered (streams : List GroupStream) : Prop where
  ids : ∀ k (stream : GroupStream), streams[k]? = some stream → stream.groupId = k
  ended : ∀ k (stream : GroupStream), streams[k]? = some stream → k + 1 < streams.length →
    stream.Ended

/-- What the publisher is doing about a key chunk that is not written yet, when the groups before it
are on the streams. -/
inductive Phase (s : Publisher) (groups : List (List EncodedVideoChunk)) : List Handler → Prop
  | idle (hcarried : List.Forall₂ GroupStream.Carries s.streams groups)
      (hcurrent : s.Current s.streams.length) (hid : s.groupId = s.streams.length - 1)
      (hopen : s.encoderReady = true → ∀ k, s.currentGroup = some k → s.closing k = false) :
    Phase s groups []
  | finishing {chunk : EncodedVideoChunk} {k : Nat} (hkey : chunk.type = .key)
      (hcarried : List.Forall₂ GroupStream.Carries s.streams groups)
      (hlength : s.streams.length = k + 1) (hcurrent : s.Current (k + 1)) (hid : s.groupId = k)
      (hclosing : s.closing k = true) (hsession : s.session = true) :
    Phase s groups [{ chunk, point := .finishing k }]
  | creating {chunk : EncodedVideoChunk} {n : Nat} (hkey : chunk.type = .key)
      (hcarried : List.Forall₂ GroupStream.Carries s.streams groups)
      (hlength : s.streams.length = n) (hcurrent : s.Current n) (hid : s.groupId = n)
      (hended : ∀ stream ∈ s.streams, stream.Ended) :
    Phase s groups [{ chunk, point := .creating n }]
  | opening {chunk : EncodedVideoChunk} {k : Nat} (hkey : chunk.type = .key)
      (hcarried : List.Forall₂ GroupStream.Carries s.streams (groups ++ [[]]))
      (hlength : s.streams.length = k + 1) (hcurrent : s.Current k) (hid : s.groupId = k)
      (hopen : s.closing k = false) :
    Phase s groups [{ chunk, point := .opening k }]
  | rejected {chunk : EncodedVideoChunk} {extra : List (List EncodedVideoChunk)}
      (hkey : chunk.type = .key)
      (hcarried : List.Forall₂ GroupStream.Carries s.streams (groups ++ extra))
      (hextra : extra = [] ∨ extra = [[]])
      (hstuck : ∀ k, s.currentGroup = some k → s.closing k = true) :
    Phase s groups [{ chunk, point := .rejected }]

/-- The invariant: every call but the last one has come to its `writeObject`. -/
structure Inv (s : Publisher) : Prop where
  ordered : Ordered s.streams
  session : s.encoderReady = true → s.session = true
  stops : ∀ k, .finishing k ∈ s.stops → s.encoderReady = false ∧ ∀ h ∈ s.handlers, h.wrote = true
  phase : ∃ done pending, s.handlers = done ++ pending ∧ (∀ h ∈ done, h.wrote = true) ∧
    (groupsOf (done.map Handler.chunk)).flatten = done.map Handler.chunk ∧
    s.Phase (groupsOf (done.map Handler.chunk)) pending

theorem Phase.pending_cases {s : Publisher} {groups : List (List EncodedVideoChunk)}
    {pending : List Handler} (h : s.Phase groups pending) : pending = [] ∨
      ∃ handler, pending = [handler] ∧ handler.wrote = false ∧ handler.chunk.type = .key ∧
        handler.point ≠ .dropped := by
  cases h with
  | idle => exact .inl rfl
  | finishing hkey | creating hkey | opening hkey | rejected hkey =>
    exact .inr ⟨_, rfl, rfl, hkey, by simp⟩

theorem Phase.pending {s : Publisher} {groups : List (List EncodedVideoChunk)}
    {done pending : List Handler} (h : s.Phase groups pending)
    (hwrote : ∀ handler ∈ s.handlers, handler.wrote = true)
    (hhandlers : s.handlers = done ++ pending) : pending = [] := by
  rcases h.pending_cases with hnil | ⟨handler, rfl, hnot, -⟩
  · exact hnil
  · have htrue := hwrote handler (by simp [hhandlers])
    exact absurd (hnot.symm.trans htrue) (by simp)

theorem Phase.carried {s : Publisher} {groups : List (List EncodedVideoChunk)}
    {pending : List Handler} (h : s.Phase groups pending) : ∃ extra,
      List.Forall₂ GroupStream.Carries s.streams (groups ++ extra) ∧
      (extra = [] ∨ extra = [[]] ∧ pending ≠ []) := by
  cases h with
  | idle hcarried => exact ⟨[], by simpa using hcarried, .inl rfl⟩
  | finishing _ hcarried | creating _ hcarried =>
    exact ⟨[], by simpa using hcarried, .inl rfl⟩
  | opening _ hcarried => exact ⟨[[]], hcarried, .inr ⟨rfl, by simp⟩⟩
  | rejected _ hcarried hextra =>
    exact ⟨_, hcarried, hextra.imp_right fun h => ⟨h, by simp⟩⟩

theorem Ordered.map_groupId {streams : List GroupStream} (h : Ordered streams) :
    streams.map GroupStream.groupId = List.range streams.length := by
  apply List.ext_getElem?
  intro k
  rw [List.getElem?_map]
  cases hk : streams[k]? with
  | none =>
    have hle := List.getElem?_eq_none_iff.mp hk
    exact (List.getElem?_eq_none (by simpa using hle)).symm
  | some stream =>
    obtain ⟨hlt, -⟩ := List.getElem?_eq_some_iff.mp hk
    rw [List.getElem?_range hlt, Option.map_some, h.ids k stream hk]

/-- What has been written is in front of the groups that the chunks fall into. -/
theorem prefixes {groups extra : List (List EncodedVideoChunk)} {done pending : List Handler}
    (hgroups : groups = groupsOf (done.map Handler.chunk))
    (hpending : pending = [] ∨ ∃ handler, pending = [handler] ∧ handler.chunk.type = .key)
    (hextra : extra = [] ∨ extra = [[]] ∧ pending ≠ []) :
    List.Forall₂ (· <+: ·) (groups ++ extra)
      ((groupsOf ((done ++ pending).map Handler.chunk)).take (groups ++ extra).length) := by
  have hsame (groups : List (List EncodedVideoChunk)) : List.Forall₂ (· <+: ·) groups groups :=
    List.forall₂_same.mpr fun group _ => List.prefix_rfl
  rcases hpending with rfl | ⟨handler, rfl, hkey⟩
  · obtain rfl := hextra.resolve_right fun h => h.2 rfl
    rw [List.append_nil, List.append_nil, ← hgroups, List.take_length]
    exact hsame groups
  · rw [List.map_append, List.map_singleton, groupsOf_key _ hkey, ← hgroups]
    rcases hextra with rfl | ⟨rfl, -⟩
    · rw [List.append_nil, List.take_left]
      exact hsame groups
    · rw [List.take_of_length_le (by simp)]
      exact Table.forall₂_concat.mpr ⟨hsame groups, List.nil_prefix⟩

theorem Inv.keepsGroupsWhole {s : Publisher} (h : s.Inv) : s.KeepsGroupsWhole := by
  obtain ⟨done, pending, hhandlers, hdone, hflatten, hphase⟩ := h.phase
  obtain ⟨extra, hcarried, hextra⟩ := hphase.carried
  have hpending := hphase.pending_cases
  refine ⟨?_, ⟨_, hcarried, ?_, ?_⟩, groupsOf_asChunks _, fun stream hstream => ?_,
    fun handler hmem => ?_⟩
  · rw [h.ordered.map_groupId]
    exact List.nodup_range
  · rw [hcarried.length_eq, chunks, hhandlers]
    refine prefixes rfl (hpending.imp_right ?_) hextra
    rintro ⟨handler, heq, -, hkey, -⟩
    exact ⟨handler, heq, hkey⟩
  · have hextra' : extra.flatten = [] := by
      rcases hextra with rfl | ⟨rfl, -⟩
      · rfl
      · rfl
    have hnone : pending.filter Handler.wrote = [] := by
      rcases hpending with rfl | ⟨handler, rfl, hwrote, -, -⟩
      · rfl
      · simp [hwrote]
    rw [List.flatten_append, hextra', List.append_nil, hflatten, hhandlers, List.filter_append,
      hnone, List.append_nil, List.filter_eq_self.mpr hdone]
  · obtain ⟨k, hk⟩ := List.mem_iff_getElem?.mp hstream
    rw [List.getElem?_dropLast] at hk
    split at hk
    · exact (h.ordered.ended k stream hk (by omega)).1
    · cases hk
  · rw [hhandlers] at hmem
    rcases List.mem_append.mp hmem with hmem | hmem
    · intro hpoint
      have hwrote := hdone handler hmem
      simp [Handler.wrote, hpoint] at hwrote
    · rcases hpending with rfl | ⟨handler', rfl, -, -, hpoint⟩
      · cases hmem
      · rwa [List.mem_singleton.mp hmem]

/-! ### Streams -/

theorem length_updateStream (s : Publisher) (k : Nat) (f : GroupStream → GroupStream) :
    (s.updateStream k f).streams.length = s.streams.length :=
  List.length_modify ..

theorem closing_updateStream {f : GroupStream → GroupStream}
    (hf : ∀ stream, (f stream).closing = stream.closing) (s : Publisher) (j k : Nat) :
    (s.updateStream j f).closing k = s.closing k := by
  simp only [closing, updateStream, List.getElem?_modify]
  cases s.streams[k]? with
  | none => rfl
  | some stream =>
    by_cases heq : j = k
    · simp [heq, hf]
    · simp [heq]

theorem closing_close_of_ne {s : Publisher} {j k : Nat} (h : j ≠ k) :
    (s.close j).closing k = s.closing k := by
  simp [closing, close, updateStream, List.getElem?_modify_ne _ _ h]

theorem closing_close_self {s : Publisher} {k : Nat} (h : k < s.streams.length) :
    (s.close k).closing k = true := by
  simp [closing, close, updateStream, List.getElem?_eq_getElem h, GroupStream.closing_call_close]

theorem closing_close {s : Publisher} {k : Nat} (j : Nat) (h : s.closing k = true) :
    (s.close j).closing k = true := by
  by_cases heq : j = k
  · subst heq
    refine closing_close_self ?_
    rw [closing, Option.any_eq_true] at h
    obtain ⟨stream, hk, -⟩ := h
    exact (List.getElem?_eq_some_iff.mp hk).1
  · rw [closing_close_of_ne heq]
    exact h

theorem closing_of_ended {s : Publisher} {k : Nat} (hk : k < s.streams.length)
    (h : ∀ stream, s.streams[k]? = some stream → stream.Ended) : s.closing k = true := by
  have hget := List.getElem?_eq_getElem hk
  rw [closing, hget]
  exact (h _ hget).2

/-- A change of a stream that leaves it in its place. -/
structure KeepsStream (f : GroupStream → GroupStream) : Prop where
  groupId : ∀ stream, (f stream).groupId = stream.groupId
  ended : ∀ stream, stream.Ended → (f stream).Ended

theorem keepsStream_write (buf : Bytes) : KeepsStream fun stream => stream.call (.write buf) where
  groupId := fun _ => rfl
  ended := fun stream h => ⟨h.1, (stream.closing_call_write buf).trans h.2⟩

theorem keepsStream_close : KeepsStream fun stream => stream.call .close where
  groupId := fun _ => rfl
  ended := fun stream h => ⟨h.1, stream.closing_call_close⟩

theorem keepsStream_finish : KeepsStream GroupStream.finish where
  groupId := fun _ => rfl
  ended := fun _ h => ⟨rfl, h.2⟩

theorem Ordered.modify {streams : List GroupStream} (h : Ordered streams)
    {f : GroupStream → GroupStream} (hf : KeepsStream f) (k : Nat) :
    Ordered (streams.modify k f) where
  ids := by
    intro j stream hj
    obtain ⟨old, hold, rfl⟩ := Table.getElem?_modify.mp hj
    split
    · rw [hf.groupId]
      exact h.ids j old hold
    · exact h.ids j old hold
  ended := by
    intro j stream hj hlt
    rw [List.length_modify] at hlt
    obtain ⟨old, hold, rfl⟩ := Table.getElem?_modify.mp hj
    split
    · exact hf.ended old (h.ended j old hold hlt)
    · exact h.ended j old hold hlt

theorem Ordered.concat {streams : List GroupStream} (h : Ordered streams)
    (hended : ∀ stream ∈ streams, stream.Ended) {stream : GroupStream}
    (hid : stream.groupId = streams.length) : Ordered (streams ++ [stream]) where
  ids := by
    intro k other hk
    rcases Table.getElem?_concat.mp hk with hk | ⟨rfl, rfl⟩
    · exact h.ids k other hk
    · exact hid
  ended := by
    intro k other hk hlt
    rcases Table.getElem?_concat.mp hk with hk | ⟨rfl, rfl⟩
    · exact hended other (List.mem_of_getElem? hk)
    · simp at hlt

/-- A chunk is written on the last stream. -/
theorem carries_write {s : Publisher} {k : Nat} {groups : List (List EncodedVideoChunk)}
    {group : List EncodedVideoChunk} (hlength : s.streams.length = k + 1)
    (hopen : s.closing k = false)
    (h : List.Forall₂ GroupStream.Carries s.streams (groups ++ [group]))
    (chunk : EncodedVideoChunk) :
    List.Forall₂ GroupStream.Carries
      (s.streams.modify k fun stream => stream.call (.write (groupObject chunk.data)))
      (groups ++ [group ++ [chunk]]) := by
  rcases List.eq_nil_or_concat s.streams with hnil | ⟨streams, stream, heq⟩
  · simp [hnil] at hlength
  rw [List.concat_eq_append] at heq
  have hk : k = streams.length := by simpa [heq] using hlength.symm
  rw [closing, heq, hk, List.getElem?_concat_length, Option.any_some] at hopen
  rw [heq] at h ⊢
  rw [Table.modify_concat hk]
  obtain ⟨hfront, hlast⟩ := Table.forall₂_concat.mp h
  exact Table.forall₂_concat.mpr ⟨hfront, hlast.write hopen chunk⟩

/-! ### Steps -/

/-- What a step does, with the conditions under which it is taken. -/
inductive Stepped (s : Publisher) : PublisherLabel → Publisher → Prop
  | chunk {chunk : EncodedVideoChunk} (hready : s.encoderReady = true)
      (hfirst : s.handlers = [] → chunk.type = .key) :
    Stepped s (.chunk chunk) (addHandler chunk (s.handleEncodedChunk chunk))
  | resume {i : Nat} {handler : Handler} {r : Publisher × HandlerPoint}
      (hget : s.handlers[i]? = some handler)
      (hr : s.goOn handler.chunk handler.point = some r) :
    Stepped s (.resume i) (setHandler i handler.chunk r)
  | reject {i : Nat} {handler : Handler} {point : HandlerPoint}
      (hget : s.handlers[i]? = some handler) (hfailed : failed handler.point = some point) :
    Stepped s (.reject i) (setHandler i handler.chunk (s, point))
  | encoderFails (hready : s.encoderReady = true) :
    Stepped s .encoderFails { s with encoder := some .closed }
  | stop : Stepped s .stop { s.stop.1 with stops := s.stop.1.stops ++ [s.stop.2] }
  | stopResume {j : Nat} {stop : PublisherStop} {r : Publisher × PublisherStop}
      (hget : s.stops[j]? = some stop) (hr : s.stopGoOn stop = some r) :
    Stepped s (.stopResume j) (setStop j r)
  | stopReject {j : Nat} {stop : PublisherStop} (hget : s.stops[j]? = some stop)
      (hwaits : stop ≠ .ended) :
    Stepped s (.stopReject j) (setStop j (s, .ended))

theorem stepped_of_step {s s' : Publisher} {l : PublisherLabel} (hs : s.step l = some s') :
    s.Stepped l s' := by
  cases l with
  | chunk chunk =>
    obtain ⟨⟨hready, hfirst⟩, rfl⟩ := Option.ite_some_none_eq_some.mp hs
    exact .chunk hready hfirst
  | resume i =>
    obtain ⟨handler, hget, hs⟩ := Option.bind_eq_some_iff.mp hs
    obtain ⟨r, hr, rfl⟩ := Option.map_eq_some_iff.mp hs
    exact .resume hget hr
  | reject i =>
    obtain ⟨handler, hget, hs⟩ := Option.bind_eq_some_iff.mp hs
    obtain ⟨point, hfailed, rfl⟩ := Option.map_eq_some_iff.mp hs
    exact .reject hget hfailed
  | encoderFails =>
    obtain ⟨hready, rfl⟩ := Option.ite_some_none_eq_some.mp hs
    exact .encoderFails hready
  | stop =>
    obtain rfl := Option.some.inj hs
    exact .stop
  | stopResume j =>
    obtain ⟨stop, hget, hs⟩ := Option.bind_eq_some_iff.mp hs
    obtain ⟨r, hr, rfl⟩ := Option.map_eq_some_iff.mp hs
    exact .stopResume hget hr
  | stopReject j =>
    obtain ⟨stop, hget, hs⟩ := Option.bind_eq_some_iff.mp hs
    split at hs
    · cases hs
    next hwaits =>
      obtain rfl := Option.some.inj hs
      exact .stopReject hget hwaits

/-- The encoder can end at any time, and the session as long as no call waits in `finish`. -/
theorem Phase.frame {s : Publisher} {groups : List (List EncodedVideoChunk)}
    {pending : List Handler} (h : s.Phase groups pending) {session : Bool}
    {encoder : Option CodecState} (streamCount : Nat) (handlers : List Handler)
    (stops : List PublisherStop)
    (hready : (encoder == some .configured) = true → s.encoderReady = true)
    (hsession : session = s.session ∨ pending = [] ∨ s.currentGroup = none) :
    Phase { s with session, encoder, streamCount, handlers, stops } groups pending := by
  cases h with
  | idle hcarried hcurrent hid hopen =>
    exact .idle hcarried hcurrent hid fun hready' => hopen (hready hready')
  | finishing hkey hcarried hlength hcurrent hid hclosing hopen =>
    rcases hsession with rfl | hnil | hnone
    · exact .finishing hkey hcarried hlength hcurrent hid hclosing hopen
    · cases hnil
    · cases hnone.symm.trans hcurrent.1
  | creating hkey hcarried hlength hcurrent hid hended =>
    exact .creating hkey hcarried hlength hcurrent hid hended
  | opening hkey hcarried hlength hcurrent hid hopen =>
    exact .opening hkey hcarried hlength hcurrent hid hopen
  | rejected hkey hcarried hextra hstuck => exact .rejected hkey hcarried hextra hstuck

/-- While a key chunk is not written, the group that the page is at is closed. -/
theorem Phase.stuck {s : Publisher} {groups : List (List EncodedVideoChunk)} {handler : Handler}
    (h : s.Phase groups [handler]) (hordered : Ordered s.streams) {k : Nat}
    (hk : s.currentGroup = some k) : s.closing k = true := by
  cases h with
  | finishing _ _ _ hcurrent _ hclosing _ =>
    obtain rfl := Option.some.inj (hcurrent.1.symm.trans hk)
    exact hclosing
  | @creating _ n _ _ hlength hcurrent _ hended =>
    cases n with
    | zero => cases hcurrent.1.symm.trans hk
    | succ n =>
      obtain rfl := Option.some.inj (hcurrent.1.symm.trans hk)
      exact closing_of_ended (by omega) fun stream hget =>
        hended stream (List.mem_of_getElem? hget)
  | @opening _ n _ _ hlength hcurrent _ _ =>
    cases n with
    | zero => cases hcurrent.1.symm.trans hk
    | succ n =>
      obtain rfl := Option.some.inj (hcurrent.1.symm.trans hk)
      exact closing_of_ended (by omega) fun stream hget =>
        hordered.ended _ stream hget (by omega)
  | rejected _ _ _ hstuck => exact hstuck k hk

/-- `stop` closes the writer of the group that the page is at. -/
theorem Phase.close {s : Publisher} {groups : List (List EncodedVideoChunk)}
    {pending : List Handler} (h : s.Phase groups pending) (hready : s.encoderReady = false)
    {k : Nat} (hk : s.currentGroup = some k) : (s.close k).Phase groups pending := by
  have hlen : (s.close k).streams.length = s.streams.length := length_updateStream ..
  have hcarries {written : List (List EncodedVideoChunk)}
      (h : List.Forall₂ GroupStream.Carries s.streams written) :
      List.Forall₂ GroupStream.Carries (s.close k).streams written :=
    Table.forall₂_modify (fun _ _ h => h.close) h
  cases h with
  | idle hcarried hcurrent hid hopen =>
    refine .idle (hcarries hcarried) (by rw [hlen]; exact hcurrent) (by rw [hlen]; exact hid) ?_
    exact fun hready' => absurd (hready.symm.trans hready') (by simp)
  | finishing hkey hcarried hlength hcurrent hid hclosing hsession =>
    exact .finishing hkey (hcarries hcarried) (hlen.trans hlength) hcurrent hid
      (closing_close k hclosing) hsession
  | creating hkey hcarried hlength hcurrent hid hended =>
    refine .creating hkey (hcarries hcarried) (hlen.trans hlength) hcurrent hid ?_
    intro stream hmem
    obtain ⟨j, hj⟩ := List.mem_iff_getElem?.mp hmem
    obtain ⟨old, hold, rfl⟩ := Table.getElem?_modify.mp hj
    have hold' := hended old (List.mem_of_getElem? hold)
    split
    · exact keepsStream_close.ended old hold'
    · exact hold'
  | @opening _ n hkey hcarried hlength hcurrent hid hopen =>
    refine .opening hkey (hcarries hcarried) (hlen.trans hlength) hcurrent hid ?_
    rw [closing_close_of_ne ?_]
    · exact hopen
    · rintro rfl
      cases k with
      | zero => cases hcurrent.1.symm.trans hk
      | succ k => exact absurd (Option.some.inj (hcurrent.1.symm.trans hk)) (by omega)
  | rejected hkey hcarried hextra hstuck =>
    exact .rejected hkey (hcarries hcarried) hextra fun j hj => closing_close k (hstuck j hj)

/-- Where a call of `stop` leaves the page.  It waits in `finish` only when no chunk is waiting, and
none comes any more. -/
def Stops (r : Publisher × PublisherStop) : Prop :=
  r.1.Inv ∧ ∀ k, r.2 = .finishing k →
    r.1.encoderReady = false ∧ ∀ handler ∈ r.1.handlers, handler.wrote = true

theorem Inv.setStops {s : Publisher} (h : s.Inv) {stops : List PublisherStop}
    (hstops : ∀ k, .finishing k ∈ stops → .finishing k ∈ s.stops ∨
      s.encoderReady = false ∧ ∀ handler ∈ s.handlers, handler.wrote = true) :
    Inv { s with stops } := by
  obtain ⟨done, pending, hhandlers, hdone, hflatten, hphase⟩ := h.phase
  refine ⟨h.ordered, h.session, fun k hk => (hstops k hk).elim (h.stops k) id,
    done, pending, hhandlers, hdone, hflatten, hphase.frame _ _ _ id (.inl rfl)⟩

theorem Stops.add {r : Publisher × PublisherStop} (h : Stops r) :
    Inv { r.1 with stops := r.1.stops ++ [r.2] } := by
  refine h.1.setStops fun k hk => ?_
  rcases List.mem_append.mp hk with hk | hk
  · exact .inl hk
  · exact .inr (h.2 k (List.mem_singleton.mp hk).symm)

theorem Stops.set {r : Publisher × PublisherStop} (h : Stops r) (j : Nat) : (setStop j r).Inv := by
  refine h.1.setStops fun k hk => ?_
  rcases List.mem_or_eq_of_mem_set hk with hk | hk
  · exact .inl hk
  · exact .inr (h.2 k hk.symm)

theorem Inv.stopGroup {s : Publisher} (h : s.Inv) (hready : s.encoderReady = false) :
    Stops s.stopGroup := by
  obtain ⟨done, pending, hhandlers, hdone, hflatten, hphase⟩ := h.phase
  have hnot {p : Prop} (htrue : s.encoderReady = true) : p :=
    absurd (hready.symm.trans htrue) (by simp)
  unfold Publisher.stopGroup
  split
  · rename_i k hk
    refine ⟨⟨h.ordered.modify keepsStream_close k, hnot, h.stops, done, pending, hhandlers, hdone,
      hflatten, hphase.close hready hk⟩, fun j hj => ⟨hready, fun handler hmem => ?_⟩⟩
    rcases hphase.pending_cases with rfl | ⟨waiting, rfl, -⟩
    · have hall : s.handlers = done := by rw [hhandlers, List.append_nil]
      exact hdone handler (hall ▸ hmem)
    · rw [if_pos (hphase.stuck h.ordered hk)] at hj
      cases hj
  · rename_i hk
    refine ⟨⟨h.ordered, hnot, h.stops, done, pending, hhandlers, hdone, hflatten, ?_⟩, nofun⟩
    exact hphase.frame _ _ _ id (.inr (.inr hk))

/-- `stop` waits for the encoder, throws, or goes on to the group if there is no encoder. -/
theorem stop_cases (s : Publisher) : s.stop = (s, .flushing) ∨ s.stop = (s, .ended) ∨
    s.encoder = none ∧ s.stop = s.stopGroup := by
  unfold Publisher.stop
  split
  · exact .inl rfl
  · exact .inr (.inl rfl)
  next hnone => exact .inr (.inr ⟨hnone, rfl⟩)

/-- When `stop` goes on it throws, goes on to the group, or closes the session. -/
theorem stopGoOn_cases {s : Publisher} {stop : PublisherStop} {r : Publisher × PublisherStop}
    (hr : s.stopGoOn stop = some r) :
    r = (s, .ended) ∨ r = stopGroup { s with encoder := none } ∨
      ∃ k, stop = .finishing k ∧
        r = ({ s.updateStream k GroupStream.finish with
          streamCount := s.streamCount + 1, session := false }, .ended) := by
  cases stop with
  | flushing =>
    simp only [stopGoOn] at hr
    split at hr
    · exact .inl (Option.some.inj hr).symm
    · exact .inl (Option.some.inj hr).symm
    · exact .inr (.inl (Option.some.inj hr).symm)
  | finishing k => exact .inr (.inr ⟨k, rfl, (Option.some.inj hr).symm⟩)
  | ended => cases hr

theorem Inv.stop {s : Publisher} (h : s.Inv) : Stops s.stop := by
  rcases s.stop_cases with heq | heq | ⟨hnone, heq⟩
  · rw [heq]
    exact ⟨h, nofun⟩
  · rw [heq]
    exact ⟨h, nofun⟩
  · rw [heq]
    exact h.stopGroup (by simp [encoderReady, hnone])

theorem Inv.endEncoder {s : Publisher} (h : s.Inv) {encoder : Option CodecState}
    (hencoder : (encoder == some .configured) = false) : Inv { s with encoder } := by
  obtain ⟨done, pending, hhandlers, hdone, hflatten, hphase⟩ := h.phase
  have hnot {p : Prop} (hready : (encoder == some .configured) = true) : p :=
    absurd (hencoder.symm.trans hready) (by simp)
  refine ⟨h.ordered, hnot, fun k hk => ⟨hencoder, (h.stops k hk).2⟩, done, pending, hhandlers, hdone,
    hflatten, hphase.frame _ _ _ hnot (.inl rfl)⟩

theorem Inv.stopGoOn {s : Publisher} (h : s.Inv) {stop : PublisherStop} (hstop : stop ∈ s.stops)
    {r : Publisher × PublisherStop} (hr : s.stopGoOn stop = some r) : Stops r := by
  obtain rfl | rfl | ⟨k, rfl, rfl⟩ := stopGoOn_cases hr
  · exact ⟨h, nofun⟩
  · exact (h.endEncoder rfl).stopGroup rfl
  · obtain ⟨hready, hwrote⟩ := h.stops k hstop
    obtain ⟨done, pending, hhandlers, hdone, hflatten, hphase⟩ := h.phase
    have hnot {p : Prop} (htrue : s.encoderReady = true) : p :=
      absurd (hready.symm.trans htrue) (by simp)
    refine ⟨⟨h.ordered.modify keepsStream_finish k, hnot, h.stops, done, pending, hhandlers, hdone,
      hflatten, ?_⟩, nofun⟩
    cases hphase.pending hwrote hhandlers
    cases hphase with
    | idle hcarried hcurrent hid hopen =>
      have hlen := s.length_updateStream k GroupStream.finish
      refine .idle (Table.forall₂_modify (fun _ _ h => h) hcarried) ?_ ?_ hnot
      · rw [hlen]
        exact hcurrent
      · rw [hlen]
        exact hid

/-- A chunk is written on the stream of the current group. -/
theorem idle_write {s : Publisher} {k : Nat} {groups : List (List EncodedVideoChunk)}
    {group : List EncodedVideoChunk} (hlength : s.streams.length = k + 1)
    (hcurrent : s.Current (k + 1)) (hid : s.groupId = k) (hopen : s.closing k = false)
    (hcarried : List.Forall₂ GroupStream.Carries s.streams (groups ++ [group]))
    (chunk : EncodedVideoChunk) :
    Phase (s.updateStream k fun stream => stream.call (.write (groupObject chunk.data)))
      (groups ++ [group ++ [chunk]]) [] := by
  refine .idle (carries_write hlength hopen hcarried chunk) ?_ ?_ fun _ j hj => ?_
  · rw [length_updateStream, hlength]
    exact hcurrent
  · rw [length_updateStream, hlength]
    exact hid
  · obtain rfl := Option.some.inj (hcurrent.1.symm.trans hj)
    rw [closing_updateStream fun stream => stream.closing_call_write _]
    exact hopen

/-- What holds of the page apart from its last call. -/
structure Rest (s : Publisher) (done : List Handler) : Prop where
  ordered : Ordered s.streams
  session : s.encoderReady = true → s.session = true
  stops : ∀ k, .finishing k ∉ s.stops
  wrote : ∀ handler ∈ done, handler.wrote = true
  flatten : (groupsOf (done.map Handler.chunk)).flatten = done.map Handler.chunk

theorem Rest.waiting {s : Publisher} {done : List Handler} (h : s.Rest done)
    {handler : Handler} (hphase : s.Phase (groupsOf (done.map Handler.chunk)) [handler]) :
    Inv { s with handlers := done ++ [handler] } :=
  ⟨h.ordered, h.session, fun k hk => absurd hk (h.stops k), done, [handler], rfl, h.wrote,
    h.flatten, hphase.frame _ _ _ id (.inl rfl)⟩

theorem Rest.writing {s : Publisher} {done : List Handler} (h : s.Rest done)
    (chunk : EncodedVideoChunk) (hflatten : (groupsOf (done.map Handler.chunk ++ [chunk])).flatten =
      done.map Handler.chunk ++ [chunk])
    (hphase : s.Phase (groupsOf (done.map Handler.chunk ++ [chunk])) []) :
    Inv { s with handlers := done ++ [{ chunk, point := .writing }] } := by
  have hchunks : (done ++ [(⟨chunk, .writing⟩ : Handler)]).map Handler.chunk =
      done.map Handler.chunk ++ [chunk] := List.map_append
  refine ⟨h.ordered, h.session, fun k hk => absurd hk (h.stops k),
    done ++ [{ chunk, point := .writing }], [], (List.append_nil _).symm, ?_, ?_, ?_⟩
  · intro handler hmem
    rcases List.mem_append.mp hmem with hmem | hmem
    · exact h.wrote handler hmem
    · obtain rfl := List.mem_singleton.mp hmem
      rfl
  · rw [hchunks]
    exact hflatten
  · rw [hchunks]
    exact hphase.frame _ _ _ id (.inl rfl)

/-- A chunk is handed over when all earlier ones are written. -/
theorem Inv.handleEncodedChunk {s : Publisher} (h : s.Inv) (hready : s.encoderReady = true)
    (hwrote : ∀ handler ∈ s.handlers, handler.wrote = true) {chunk : EncodedVideoChunk}
    (hfirst : s.handlers = [] → chunk.type = .key) :
    (addHandler chunk (s.handleEncodedChunk chunk)).Inv := by
  obtain ⟨done, pending, hhandlers, -, hflatten, hphase⟩ := h.phase
  obtain rfl := hphase.pending hwrote hhandlers
  rw [List.append_nil] at hhandlers
  subst hhandlers
  have hsession := h.session hready
  have hstops (k : Nat) (hk : .finishing k ∈ s.stops) : False :=
    absurd ((h.stops k hk).1.symm.trans hready) (by simp)
  obtain ⟨hcarried, hcurrent, hid, hopen⟩ := hphase
  cases hlength : s.streams.length with
  | zero =>
    rw [hlength] at hcurrent hid
    have hstreams : s.streams = [] := List.eq_nil_of_length_eq_zero hlength
    rw [hstreams, List.forall₂_nil_left_iff] at hcarried
    have hnone : s.handlers = [] := by
      rw [hcarried] at hflatten
      exact List.map_eq_nil_iff.mp hflatten.symm
    have hkey := hfirst hnone
    have heq : s.handleEncodedChunk chunk = (s, .creating 0) := by
      simp [Publisher.handleEncodedChunk, openOrWrite, openSubgroup, hsession, hcurrent.1,
        hcurrent.2, hid]
    rw [heq]
    refine Rest.waiting ⟨h.ordered, h.session, hstops, hwrote, hflatten⟩ ?_
    refine .creating hkey ?_ hlength hcurrent hid (by simp [hstreams])
    rw [hcarried, hstreams]
    exact .nil
  | succ k =>
    rw [hlength] at hcurrent hid
    obtain ⟨hgroup, hstarted⟩ := hcurrent
    have hclosing := hopen hready k hgroup
    cases htype : chunk.type with
    | key =>
      have heq : s.handleEncodedChunk chunk = (s.close k, .finishing k) := by
        simp [Publisher.handleEncodedChunk, hsession, htype, hstarted, hgroup, hclosing]
      rw [heq]
      refine Rest.waiting (s := s.close k)
        ⟨h.ordered.modify keepsStream_close k, h.session, hstops, hwrote, hflatten⟩ ?_
      exact .finishing htype (Table.forall₂_modify (fun _ _ h => h.close) hcarried)
        ((length_updateStream ..).trans hlength) ⟨hgroup, hstarted⟩ hid
        (closing_close_self (by omega)) hsession
    | delta =>
      have heq : s.handleEncodedChunk chunk =
          (s.updateStream k fun stream => stream.call (.write (groupObject chunk.data)),
            .writing) := by
        simp [Publisher.handleEncodedChunk, openOrWrite, writeObject, hsession, htype, hgroup,
          hclosing]
      rw [heq]
      rcases List.eq_nil_or_concat (groupsOf (s.handlers.map Handler.chunk)) with
        hnil | ⟨groups, group, hgroups⟩
      · rw [hnil, List.forall₂_nil_right_iff] at hcarried
        simp [hcarried] at hlength
      rw [List.concat_eq_append] at hgroups
      have hnext := groupsOf_delta htype hgroups
      rw [hgroups] at hcarried
      refine Rest.writing (s := s.updateStream k _)
        ⟨h.ordered.modify (keepsStream_write _) k, h.session, hstops, hwrote, hflatten⟩ chunk ?_ ?_
      · rw [hgroups] at hflatten
        rw [hnext, ← hflatten]
        simp
      · rw [hnext]
        exact idle_write hlength ⟨hgroup, hstarted⟩ hid hclosing hcarried chunk

/-- A call that is settled has come to its `writeObject`. -/
theorem Inv.settled {s : Publisher} (h : s.Inv) {i : Nat} {handler : Handler}
    (hget : s.handlers[i]? = some handler) (hwrote : handler.wrote = true) :
    (setHandler i handler.chunk (s, .written)).Inv := by
  obtain ⟨done, pending, hhandlers, hdone, hflatten, hphase⟩ := h.phase
  have hdone' : done[i]? = some handler := by
    rcases hphase.pending_cases with rfl | ⟨waiting, rfl, hnot, -⟩
    · rwa [hhandlers, List.append_nil] at hget
    · rw [hhandlers] at hget
      rcases Table.getElem?_concat.mp hget with hget | ⟨-, rfl⟩
      · exact hget
      · exact absurd (hnot.symm.trans hwrote) (by simp)
  have hlt := (List.getElem?_eq_some_iff.mp hdone').1
  have hset : (setHandler i handler.chunk (s, .written)).handlers =
      done.set i { handler with point := .written } ++ pending := by
    rw [← List.set_append_left _ _ hlt, ← hhandlers]
    rfl
  have hall (handlers : List Handler) (hold : ∀ h ∈ handlers, h.wrote = true) :
      ∀ h ∈ handlers.set i { handler with point := .written }, h.wrote = true := by
    intro other hmem
    rcases List.mem_or_eq_of_mem_set hmem with hmem | rfl
    · exact hold other hmem
    · rfl
  have hchunks : (done.set i { handler with point := .written }).map Handler.chunk =
      done.map Handler.chunk := Table.map_set hdone' rfl
  refine ⟨h.ordered, h.session, fun k hk => ⟨(h.stops k hk).1, hall _ (h.stops k hk).2⟩,
    _, pending, hset, hall done hdone, ?_, ?_⟩
  · rw [hchunks]
    exact hflatten
  · rw [hchunks]
    exact hphase.frame _ _ _ id (.inl rfl)

/-- The call that has not come to its `writeObject` is the last one. -/
theorem Inv.waiting {s : Publisher} (h : s.Inv) {i : Nat} {handler : Handler}
    (hget : s.handlers[i]? = some handler) (hnot : handler.wrote = false) :
    ∃ done, s.handlers = done ++ [handler] ∧ i = done.length ∧ s.Rest done ∧
      s.Phase (groupsOf (done.map Handler.chunk)) [handler] := by
  obtain ⟨done, pending, hhandlers, hdone, hflatten, hphase⟩ := h.phase
  have hnone (k : Nat) (hk : .finishing k ∈ s.stops) : False :=
    absurd (hnot.symm.trans ((h.stops k hk).2 handler (List.mem_of_getElem? hget))) (by simp)
  have hold (hmem : handler ∈ done) : False :=
    absurd (hnot.symm.trans (hdone handler hmem)) (by simp)
  rw [hhandlers] at hget
  rcases hphase.pending_cases with rfl | ⟨waiting, rfl, -⟩
  · rw [List.append_nil] at hget
    exact (hold (List.mem_of_getElem? hget)).elim
  · rcases Table.getElem?_concat.mp hget with hget | ⟨hi, rfl⟩
    · exact (hold (List.mem_of_getElem? hget)).elim
    · exact ⟨done, hhandlers, hi, ⟨h.ordered, h.session, hnone, hdone, hflatten⟩, hphase⟩

theorem set_last {handlers done : List Handler} {old : Handler} (h : handlers = done ++ [old])
    (handler : Handler) : handlers.set done.length handler = done ++ [handler] := by
  simp [h]

theorem Rest.setWaiting {s : Publisher} {done : List Handler} {old : Handler} {point : HandlerPoint}
    {chunk : EncodedVideoChunk} (h : s.Rest done) (hhandlers : s.handlers = done ++ [old])
    (hphase : s.Phase (groupsOf (done.map Handler.chunk)) [{ chunk, point }]) :
    (setHandler done.length chunk (s, point)).Inv := by
  rw [setHandler, set_last hhandlers]
  exact h.waiting hphase

theorem Rest.setWriting {s : Publisher} {done : List Handler} {old : Handler}
    {chunk : EncodedVideoChunk} (h : s.Rest done) (hhandlers : s.handlers = done ++ [old])
    (hflatten : (groupsOf (done.map Handler.chunk ++ [chunk])).flatten =
      done.map Handler.chunk ++ [chunk])
    (hphase : s.Phase (groupsOf (done.map Handler.chunk ++ [chunk])) []) :
    (setHandler done.length chunk (s, .writing)).Inv := by
  rw [setHandler, set_last hhandlers]
  exact h.writing chunk hflatten hphase

/-- All streams are finished when the last one is. -/
theorem Ordered.finish_last {s : Publisher} (h : Ordered s.streams) {k : Nat}
    (hlength : s.streams.length = k + 1) (hclosing : s.closing k = true) :
    ∀ stream ∈ s.streams.modify k GroupStream.finish, stream.Ended := by
  intro stream hmem
  obtain ⟨j, hj⟩ := List.mem_iff_getElem?.mp hmem
  obtain ⟨old, hold, rfl⟩ := Table.getElem?_modify.mp hj
  by_cases heq : j = k
  · subst heq
    rw [closing, hold, Option.any_some] at hclosing
    rw [if_pos rfl]
    exact ⟨rfl, hclosing⟩
  · have hlt := (List.getElem?_eq_some_iff.mp hold).1
    rw [if_neg heq]
    exact h.ended j old hold (by omega)

theorem Inv.goOn {s : Publisher} (h : s.Inv) {i : Nat} {handler : Handler}
    (hget : s.handlers[i]? = some handler) {r : Publisher × HandlerPoint}
    (hr : s.goOn handler.chunk handler.point = some r) : (setHandler i handler.chunk r).Inv := by
  by_cases hwrote : handler.wrote = true
  · obtain ⟨chunk, point⟩ := handler
    cases point with
    | writing =>
      obtain rfl := Option.some.inj hr
      exact h.settled hget hwrote
    | written => cases hr
    | finishing | creating | opening | rejected | dropped => cases hwrote
  obtain ⟨done, hhandlers, rfl, hrest, hphase⟩ := h.waiting hget (by simpa using hwrote)
  cases hphase with
  | @finishing chunk k hkey hcarried hlength hcurrent hid hclosing hsession =>
    have heq : s.goOn chunk (.finishing k) = some
        ({ s.updateStream k GroupStream.finish with
            streamCount := s.streamCount + 1, groupId := k + 1 }, .creating (k + 1)) := by
      simp [Publisher.goOn, openOrWrite, openSubgroup, updateStream, hsession, hkey, hcurrent.1,
        hcurrent.2, hid]
    obtain rfl := Option.some.inj (heq.symm.trans hr)
    refine Rest.setWaiting ⟨hrest.ordered.modify keepsStream_finish k, hrest.session, hrest.stops,
      hrest.wrote, hrest.flatten⟩ hhandlers ?_
    refine .creating hkey (Table.forall₂_modify (fun _ _ h => h) hcarried)
      ((length_updateStream ..).trans hlength) hcurrent rfl ?_
    exact hrest.ordered.finish_last hlength hclosing
  | @creating chunk n hkey hcarried hlength hcurrent hid hended =>
    obtain rfl := Option.some.inj hr
    refine Rest.setWaiting ⟨hrest.ordered.concat hended hlength.symm, hrest.session, hrest.stops,
      hrest.wrote, hrest.flatten⟩ hhandlers ?_
    subst hlength
    refine .opening hkey (Table.forall₂_concat.mpr ⟨hcarried, 0, rfl⟩) (by simp) hcurrent hid ?_
    simp [closing, GroupStream.closing]
  | @opening chunk k hkey hcarried hlength hcurrent hid hopen =>
    have hopen' : closing { s with currentGroup := some k, groupStarted := true } k = false := hopen
    have heq : s.goOn chunk (.opening k) = some
        (({ s with currentGroup := some k, groupStarted := true } : Publisher).updateStream k
          fun stream => stream.call (.write (groupObject chunk.data)), .writing) := by
      simp [Publisher.goOn, writeObject, hopen']
    obtain rfl := Option.some.inj (heq.symm.trans hr)
    have hnext := groupsOf_key (done.map Handler.chunk) hkey
    refine Rest.setWriting ⟨hrest.ordered.modify (keepsStream_write _) k, hrest.session,
      hrest.stops, hrest.wrote, hrest.flatten⟩ hhandlers ?_ ?_
    · rw [hnext, List.flatten_append, hrest.flatten]
      simp
    · rw [hnext]
      exact idle_write (s := { s with currentGroup := some k, groupStarted := true }) hlength
        ⟨rfl, rfl⟩ hid hopen' hcarried chunk
  | rejected => cases hr

theorem Inv.failed {s : Publisher} (h : s.Inv) {i : Nat} {handler : Handler}
    (hget : s.handlers[i]? = some handler) {point : HandlerPoint}
    (hfailed : failed handler.point = some point) :
    (setHandler i handler.chunk (s, point)).Inv := by
  by_cases hwrote : handler.wrote = true
  · obtain ⟨chunk, before⟩ := handler
    cases before with
    | writing =>
      obtain rfl := Option.some.inj hfailed
      exact h.settled hget hwrote
    | written => cases hfailed
    | finishing | creating | opening | rejected | dropped => cases hwrote
  obtain ⟨done, hhandlers, rfl, hrest, hphase⟩ := h.waiting hget (by simpa using hwrote)
  have hstuck (k : Nat) (hk : s.currentGroup = some k) : s.closing k = true :=
    hphase.stuck hrest.ordered hk
  cases hphase with
  | finishing hkey hcarried =>
    obtain rfl := Option.some.inj hfailed
    exact hrest.setWaiting hhandlers
      (.rejected hkey (by rwa [List.append_nil]) (.inl rfl) hstuck)
  | creating hkey hcarried =>
    obtain rfl := Option.some.inj hfailed
    exact hrest.setWaiting hhandlers
      (.rejected hkey (by rwa [List.append_nil]) (.inl rfl) hstuck)
  | opening hkey hcarried =>
    obtain rfl := Option.some.inj hfailed
    exact hrest.setWaiting hhandlers (.rejected hkey hcarried (.inr rfl) hstuck)
  | rejected => cases hfailed

theorem Inv.step {s s' : Publisher} {l : PublisherLabel} (h : s.Inv) (hl : s.WrittenBefore l)
    (hs : s.step l = some s') : s'.Inv := by
  cases stepped_of_step hs with
  | chunk hready hfirst => exact h.handleEncodedChunk hready hl hfirst
  | resume hget hr => exact h.goOn hget hr
  | reject hget hfailed => exact h.failed hget hfailed
  | encoderFails => exact h.endEncoder rfl
  | stop => exact h.stop.add
  | stopResume hget hr => exact (h.stopGoOn (List.mem_of_getElem? hget) hr).set _
  | stopReject => exact Stops.set (r := (s, .ended)) ⟨h, nofun⟩ _

theorem inv_init : publisher.init.Inv where
  ordered := ⟨nofun, nofun⟩
  session := fun _ => rfl
  stops := nofun
  phase := ⟨[], [], rfl, nofun, rfl, .idle .nil ⟨rfl, rfl⟩ rfl nofun⟩

/-- Groups are kept whole where every chunk is handed over after the earlier ones are written. -/
theorem keepsGroupsWhole_run (ls : List PublisherLabel)
    (h : publisher.Meets WrittenBefore publisher.init ls) :
    (publisher.run publisher.init ls).KeepsGroupsWhole := by
  have hinv : (publisher.run publisher.init ls).Inv :=
    publisher.invariant inv_init (fun _ _ _ h hl hs => h.step hl hs) h
  exact hinv.keepsGroupsWhole

theorem keepsGroupsWhole_run_twoGroups :
    let ls : List PublisherLabel :=
      [.chunk ⟨.key, [1]⟩, .resume 0, .resume 0, .chunk ⟨.delta, [2]⟩, .chunk ⟨.key, [3]⟩,
        .resume 1, .resume 2, .resume 2, .resume 2, .stop, .stopResume 0, .stopResume 0]
    publisher.Meets WrittenBefore publisher.init ls ∧
      (publisher.run publisher.init ls).streams.map GroupStream.groupId = [0, 1] ∧
      (publisher.run publisher.init ls).KeepsGroupsWhole :=
  ⟨by decide, by decide, keepsGroupsWhole_run _ (by decide)⟩

/-- A key chunk, and a delta chunk that comes while the stream for the group is opened. -/
theorem not_keepsGroupsWhole_overlap :
    ¬∀ ls : List PublisherLabel, (publisher.run publisher.init ls).KeepsGroupsWhole := by
  intro h
  have hwhole := h
    [.chunk ⟨.key, [1]⟩, .chunk ⟨.delta, [2]⟩, .resume 0, .resume 1]
  exact absurd hwhole.oneStream (by decide)

/-! ### Overlaps -/

/-- A chunk is dropped that is handed over while the writer of the current group is closed. -/
theorem handleEncodedChunk_closing {s : Publisher} {k : Nat} (hsession : s.session = true)
    (hk : s.currentGroup = some k) (hclosing : s.closing k = true) (chunk : EncodedVideoChunk) :
    (s.handleEncodedChunk chunk).2 = .dropped := by
  by_cases hkey : chunk.type = .key ∧ s.groupStarted = true
  · simp [Publisher.handleEncodedChunk, hsession, hkey, hk, hclosing]
  · simp [Publisher.handleEncodedChunk, hsession, hkey, hk, openOrWrite, writeObject, hclosing]

theorem next_resume_creating {s : Publisher} {i : Nat} (chunk : EncodedVideoChunk) (groupId : Nat)
    (h : s.handlers[i]? = some { chunk, point := .creating groupId }) :
    publisher.next s (.resume i) =
      { s with
        streams := s.streams ++
          [{ groupId, calls := [.write (groupHeader groupId)], finished := false }]
        handlers := s.handlers.set i { chunk, point := .opening s.streams.length } } := by
  apply Machine.next_of_step
  simp [publisher, Publisher.step, h, Publisher.goOn, setHandler]

/-- The condition leaves out only what breaks a group: a chunk that is handed over while a call is
in `finish` or in `openSubgroup` is dropped, or can open a second stream for the same group. -/
theorem exists_broken_of_overlap {s : Publisher} (h : s.Inv) {chunk : EncodedVideoChunk}
    (hstep : (s.step (.chunk chunk)).isSome) (hoverlap : ¬s.WrittenBefore (.chunk chunk))
    (hworks : ∀ handler ∈ s.handlers, handler.point ≠ .rejected) :
    ∃ ls, ¬(publisher.run s (.chunk chunk :: ls)).KeepsGroupsWhole := by
  obtain ⟨s', hs'⟩ := Option.isSome_iff_exists.mp hstep
  have hnext : publisher.next s (.chunk chunk) = s' := Machine.next_of_step hs'
  obtain ⟨⟨hready, -⟩, rfl⟩ := Option.ite_some_none_eq_some.mp hs'
  have hsession := h.session hready
  obtain ⟨handler, hmem, hnot⟩ : ∃ handler ∈ s.handlers, handler.wrote = false := by
    simpa [WrittenBefore] using hoverlap
  obtain ⟨i, hget⟩ := List.mem_iff_getElem?.mp hmem
  obtain ⟨done, hhandlers, rfl, hrest, hphase⟩ := h.waiting hget hnot
  cases hgroup : s.currentGroup with
  | some k =>
    refine ⟨[], fun hwhole => ?_⟩
    have hdropped := handleEncodedChunk_closing hsession hgroup
      (hphase.stuck hrest.ordered hgroup) chunk
    rw [Machine.run_cons, Machine.run_nil, hnext] at hwhole
    refine hwhole.kept { chunk, point := (s.handleEncodedChunk chunk).2 } ?_ hdropped
    simp [addHandler]
  | none =>
    -- the stream of the first group is not there yet
    have hsecond (hstarted : s.groupStarted = false) (hid : s.groupId = 0) :
        s.handleEncodedChunk chunk = (s, .creating 0) := by
      simp [Publisher.handleEncodedChunk, openOrWrite, openSubgroup, hsession, hgroup, hstarted,
        hid]
    cases hphase with
    | finishing _ _ _ hcurrent => cases hgroup.symm.trans hcurrent.1
    | rejected => exact absurd rfl (hworks _ hmem)
    | @creating first n _ _ hlength hcurrent hid _ =>
      cases n with
      | succ n => cases hgroup.symm.trans hcurrent.1
      | zero =>
        refine ⟨[.resume done.length, .resume (done.length + 1)], fun hwhole => ?_⟩
        rw [Machine.run_cons, hnext, hsecond hcurrent.2 hid, addHandler, Machine.run_cons,
          next_resume_creating first 0 (by simp [hhandlers]),
          Machine.run_cons,
          next_resume_creating chunk 0 (by simp [hhandlers])] at hwhole
        have hone := hwhole.oneStream
        simp [List.nodup_append] at hone
    | @opening first k _ _ hlength hcurrent hid _ =>
      cases k with
      | succ k => cases hgroup.symm.trans hcurrent.1
      | zero =>
        refine ⟨[.resume (done.length + 1)], fun hwhole => ?_⟩
        rw [Machine.run_cons, hnext, hsecond hcurrent.2 hid, addHandler, Machine.run_cons,
          next_resume_creating chunk 0 (by simp [hhandlers])] at hwhole
        have hone := hwhole.oneStream
        have hids := h.ordered.map_groupId
        rw [hlength] at hids
        simp [hids] at hone

end Publisher

end Moqt.Web
