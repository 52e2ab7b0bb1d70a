import Moqt.Library.Table
import Moqt.Web.Session
import Moqt.Web.Video

/-! The browser subscriber: `receiveLoop` takes the data streams of a session one after another, and
reads each one in a call of `processGroup` that it does not wait for.  The calls run one at a time,
each up to its next `await`; what they wait for comes in any order.  The times of the chunks, the
canvas and the log are left out. -/

namespace Moqt.Web

open Library

/-- Where a call of `processGroup` waits. -/
inductive GroupPoint where
  | flushing
  | reading
  | cancelling
  | returned
deriving DecidableEq, Repr

/-- A call of `processGroup`, with the signal of its abort controller.  `stream` is what its reader
had in front of it when the call was made. -/
structure GroupCall where
  header : SubgroupHeader
  stream : Chunked
  reader : Chunked
  aborted : Bool
  isFirstObject : Bool
  objectCount : Nat
  point : GroupPoint
deriving DecidableEq, Repr

/-- Where a call of `stop` waits. -/
inductive StopPoint where
  | flushing
  | ended
deriving DecidableEq, Repr

/-- The variables of the page, the calls that have been made, and the chunks that have been passed
to `decoder.decode`, with the IDs of their groups.  `activeAbort` is the call that has the
controller, and `receiving` says that `receiveLoop` waits for an event. -/
structure Subscriber where
  session : Bool
  decoder : Option CodecState
  activeGroupId : Int
  activeAbort : Option Nat
  receiving : Bool
  calls : List GroupCall
  stops : List StopPoint
  decoded : List (Nat × EncodedVideoChunk)
deriving DecidableEq, Repr

inductive SubscriberLabel where
  /-- `nextEvent` returns. -/
  | event (event : SessionEvent)
  /-- `nextEvent` throws. -/
  | endOfEvents
  | flushed (i : Nat)
  | flushFails (i : Nat)
  /-- What a call reads is there; the decoder takes the chunk, if it is passed one, or throws. -/
  | read (i : Nat) (accepted : Bool)
  | readFails (i : Nat)
  /-- `cancel` is settled. -/
  | cancelled (i : Nat)
  /-- The decoder fails, which closes it. -/
  | decoderFails
  | stop
  | stopFlushed (j : Nat)
  | stopFlushFails (j : Nat)

def GroupCall.abort (call : GroupCall) : GroupCall := { call with aborted := true }

/-- A call leaves its loop. -/
def GroupCall.leave (call : GroupCall) : GroupCall :=
  { call with point := if call.aborted then .cancelling else .returned }

/-- The condition of the loop. -/
def GroupCall.loop (call : GroupCall) : GroupCall :=
  if call.aborted then call.leave else { call with point := .reading }

namespace Subscriber

/-- `decoder && decoder.state === "configured"` -/
def decoderReady (s : Subscriber) : Bool := s.decoder == some .configured

/-- A call of `processGroup`, up to its first `await`. -/
def processGroup (s : Subscriber) (header : SubgroupHeader) (reader : Chunked) : GroupCall :=
  let call : GroupCall :=
    { header, stream := reader, reader, aborted := false, isFirstObject := true, objectCount := 0,
      point := .flushing }
  if s.decoderReady then call else call.loop

/-- `activeAbort.abort()`, if there is one. -/
def abortActive (s : Subscriber) : List GroupCall :=
  match s.activeAbort with
  | some i => s.calls.modify i GroupCall.abort
  | none => s.calls

/-- The condition of the loop in `receiveLoop`. -/
def receiveNext (s : Subscriber) : Subscriber := { s with receiving := s.session }

/-- What `receiveLoop` does with an event, up to its next `await`. -/
def receive (s : Subscriber) : SessionEvent → Subscriber
  | .subscribe _ => s.receiveNext
  | .dataStream header reader =>
    if (header.groupId : Int) ≤ s.activeGroupId then s.receiveNext
    else
      receiveNext { s with
        activeGroupId := header.groupId
        activeAbort := some s.calls.length
        calls := s.abortActive ++ [s.processGroup header reader] }

def setCall (s : Subscriber) (i : Nat) (call : GroupCall) : Subscriber :=
  { s with calls := s.calls.set i call }

/-- `decoder.decode`, which throws if `accepted` is `false`. -/
def decode (s : Subscriber) (i : Nat) (call : GroupCall) (payload : Bytes) (accepted : Bool) :
    Subscriber :=
  let chunk : EncodedVideoChunk :=
    { type := if call.isFirstObject then .key else .delta, data := payload }
  let call := { call with isFirstObject := false }
  let s := { s with decoded := s.decoded ++ [(call.header.groupId, chunk)] }
  if accepted then s.setCall i { call with objectCount := call.objectCount + 1 }.loop
  else s.setCall i call.leave

/-- What a call does when `readObject` has returned or thrown, up to its next `await`. -/
def afterRead (s : Subscriber) (i : Nat) (call : GroupCall) (accepted : Bool) : Subscriber :=
  match readObject call.reader with
  | .ok (none, reader) => s.setCall i { call with reader }.leave
  | .ok (some payload, reader) =>
    if call.aborted then s.setCall i { call with reader }.leave
    else if s.decoderReady then s.decode i { call with reader } payload accepted
    else s.setCall i { call with reader, objectCount := call.objectCount + 1 }.loop
  | _ => s.setCall i call.leave

/-- A call of `stop`, up to its first `await`.  `flush` throws if the decoder is not configured. -/
def stop (s : Subscriber) : Subscriber :=
  match s.decoder with
  | some .configured => { s with stops := s.stops ++ [.flushing] }
  | some _ => { s with stops := s.stops ++ [.ended] }
  | none => { s with session := false, stops := s.stops ++ [.ended] }

/-- What a call of `stop` does when the decoder is flushed.  `close` throws if there is no decoder
any more, or if it is closed. -/
def stopFlushed (s : Subscriber) (j : Nat) : Subscriber :=
  match s.decoder with
  | none | some .closed => { s with stops := s.stops.set j .ended }
  | some _ => { s with decoder := none, session := false, stops := s.stops.set j .ended }

/-- The call that waits at the point. -/
def waiting (s : Subscriber) (i : Nat) (point : GroupPoint) : Option GroupCall :=
  s.calls[i]?.filter fun call => call.point = point

def step (s : Subscriber) : SubscriberLabel → Option Subscriber
  | .event event => if s.receiving then some (s.receive event) else none
  | .endOfEvents => if s.receiving then some { s with receiving := false } else none
  | .flushed i => (s.waiting i .flushing).map fun call => s.setCall i call.loop
  | .flushFails i =>
    (s.waiting i .flushing).map fun call => s.setCall i { call with point := .returned }
  | .read i accepted => (s.waiting i .reading).map fun call => s.afterRead i call accepted
  | .readFails i => (s.waiting i .reading).map fun call => s.setCall i call.leave
  | .cancelled i =>
    (s.waiting i .cancelling).map fun call => s.setCall i { call with point := .returned }
  | .decoderFails =>
    if s.decoderReady then some { s with decoder := some .closed } else none
  | .stop => some s.stop
  | .stopFlushed j => if s.stops[j]? = some .flushing then some (s.stopFlushed j) else none
  | .stopFlushFails j =>
    if s.stops[j]? = some .flushing then some { s with stops := s.stops.set j .ended } else none

end Subscriber

/-- The page from where `start` has called `receiveLoop` on. -/
def subscriber : Machine Subscriber SubscriberLabel where
  init :=
    { session := true, decoder := some .configured, activeGroupId := -1, activeAbort := none,
      receiving := true, calls := [], stops := [], decoded := [] }
  step := Subscriber.step

/-! ### What the decoder is passed -/

namespace GroupCall

def groupId (call : GroupCall) : Nat := call.header.groupId

/-- The call has not left its loop. -/
def Live (call : GroupCall) : Prop := call.point = .flushing ∨ call.point = .reading

/-- What becomes of a call that passes nothing to the decoder.  It goes on reading where it is, if
the decoder is ready. -/
structure Continues (ready : Bool) (call call' : GroupCall) : Prop where
  header : call'.header = call.header
  stream : call'.stream = call.stream
  aborted : call'.aborted = call.aborted
  isFirstObject : call'.isFirstObject = call.isFirstObject
  reader : ready = true → call'.Live → call.Live ∧ call'.reader = call.reader

theorem not_live_leave (call : GroupCall) : ¬call.leave.Live := by
  cases h : call.aborted <;> simp [leave, Live, h]

theorem Continues.leave (ready : Bool) (call : GroupCall) (reader : Chunked) :
    Continues ready call { call with reader }.leave where
  header := rfl
  stream := rfl
  aborted := rfl
  isFirstObject := rfl
  reader := fun _ hlive => absurd hlive (not_live_leave _)

theorem Continues.returned (ready : Bool) (call : GroupCall) :
    Continues ready call { call with point := .returned } where
  header := rfl
  stream := rfl
  aborted := rfl
  isFirstObject := rfl
  reader := fun _ hlive => by simp [Live] at hlive

/-- The condition of the loop changes only where the call is. -/
theorem loop_eq (call : GroupCall) : ∃ point, call.loop = { call with point } := by
  cases h : call.aborted with
  | true => exact ⟨.cancelling, by simp [loop, leave, h]⟩
  | false => exact ⟨.reading, by simp [loop, h]⟩

theorem Continues.loop (ready : Bool) {call : GroupCall} (hlive : call.Live) :
    Continues ready call call.loop := by
  obtain ⟨point, hloop⟩ := call.loop_eq
  rw [hloop]
  exact ⟨rfl, rfl, rfl, rfl, fun _ _ => ⟨hlive, rfl⟩⟩

/-- An object is dropped if the decoder is not ready. -/
theorem Continues.skip {ready : Bool} (hready : ready = false) (call : GroupCall)
    (reader : Chunked) : Continues ready call
      ({ call with reader, objectCount := call.objectCount + 1 } : GroupCall).loop := by
  obtain ⟨point, hloop⟩ :=
    loop_eq { call with reader, objectCount := call.objectCount + 1 }
  rw [hloop]
  exact ⟨rfl, rfl, rfl, rfl, fun h => absurd h (by simp [hready])⟩

end GroupCall

namespace Subscriber

/-- The chunks that have been passed for a group. -/
def decodedOf (s : Subscriber) (groupId : Nat) : List EncodedVideoChunk :=
  (s.decoded.filter fun d => d.1 = groupId).map Prod.snd

/-- The decoder is passed chunks of groups whose IDs do not decrease.  Each group is read from one
stream, and what is passed of it are the objects at the front of the stream, in their order, the
first one of them as the key chunk. -/
structure DecodesForward (s : Subscriber) : Prop where
  forward : (s.decoded.map Prod.fst).Pairwise (· ≤ ·)
  once : (s.calls.map GroupCall.groupId).Nodup
  known : ∀ d ∈ s.decoded, ∃ call ∈ s.calls, call.groupId = d.1
  inOrder : ∀ call ∈ s.calls, ∃ payloads tail, Items IsObject payloads call.stream.bytes tail ∧
    s.decodedOf call.groupId = asChunks payloads

/-- A call has passed what it has read.  As long as the decoder is ready, a call in its loop has
passed all that it has read. -/
def Progress (s : Subscriber) (call : GroupCall) : Prop :=
  ∃ payloads tail, Items IsObject payloads call.stream.bytes tail ∧
    s.decodedOf call.groupId = asChunks payloads ∧ call.isFirstObject = payloads.isEmpty ∧
    (s.decoderReady = true → call.Live → call.reader.bytes = tail)

/-- The invariant.  Only the call of the active group is not aborted. -/
structure Inv (s : Subscriber) : Prop where
  forward : (s.decoded.map Prod.fst).Pairwise (· ≤ ·)
  increasing : (s.calls.map GroupCall.groupId).Pairwise (· < ·)
  bounded : ∀ call ∈ s.calls, (call.groupId : Int) ≤ s.activeGroupId
  known : ∀ d ∈ s.decoded, ∃ call ∈ s.calls, call.groupId = d.1
  active : ∀ i call, s.calls[i]? = some call → call.aborted = false →
    s.activeAbort = some i ∧ (call.groupId : Int) = s.activeGroupId
  progress : ∀ call ∈ s.calls, s.Progress call

theorem Inv.decodesForward {s : Subscriber} (h : s.Inv) : s.DecodesForward where
  forward := h.forward
  once := h.increasing.imp Nat.ne_of_lt
  known := h.known
  inOrder := fun call hmem =>
    have ⟨payloads, tail, hitems, hdecoded, _⟩ := h.progress call hmem
    ⟨payloads, tail, hitems, hdecoded⟩

/-- The session and the decoder can end at any time. -/
theorem Inv.frame {s : Subscriber} (h : s.Inv) {decoder : Option CodecState}
    (session receiving : Bool) (stops : List StopPoint)
    (hready : (decoder == some .configured) = true → s.decoderReady = true) :
    Inv { s with session, decoder, receiving, stops } where
  forward := h.forward
  increasing := h.increasing
  bounded := h.bounded
  known := h.known
  active := h.active
  progress := by
    intro call hmem
    obtain ⟨payloads, tail, hitems, hpassed, hfirst, hreader⟩ := h.progress call hmem
    exact ⟨payloads, tail, hitems, hpassed, hfirst, fun hready' => hreader (hready hready')⟩

/-- A call is replaced by what it has become.  What is left is what the chunks say. -/
theorem Inv.replace {s : Subscriber} (h : s.Inv) {i : Nat} {call call' : GroupCall}
    {decoded : List (Nat × EncodedVideoChunk)} (hcall : s.calls[i]? = some call)
    (hheader : call'.header = call.header) (haborted : call'.aborted = false → call.aborted = false)
    (hforward : (decoded.map Prod.fst).Pairwise (· ≤ ·))
    (hknown : ∀ d ∈ decoded, d.1 ∈ s.calls.map GroupCall.groupId)
    (hself : Progress { s with decoded, calls := s.calls.set i call' } call')
    (hothers : ∀ j other, j ≠ i → s.calls[j]? = some other →
      Progress { s with decoded, calls := s.calls.set i call' } other) :
    Inv { s with decoded, calls := s.calls.set i call' } := by
  have hid : call'.groupId = call.groupId := congrArg SubgroupHeader.groupId hheader
  have hids : (s.calls.set i call').map GroupCall.groupId = s.calls.map GroupCall.groupId :=
    Table.map_set hcall hid
  refine ⟨hforward, by rw [hids]; exact h.increasing, fun other hother => ?_, fun d hd => ?_,
    fun j other hother hnot => ?_, fun other hother => ?_⟩
  · rcases List.mem_or_eq_of_mem_set hother with hother | rfl
    · exact h.bounded other hother
    · rw [hid]
      exact h.bounded call (List.mem_of_getElem? hcall)
  · have hmem := hknown d hd
    rw [← hids] at hmem
    exact List.mem_map.mp hmem
  · rcases (Table.getElem?_set hcall).mp hother with ⟨rfl, rfl⟩ | ⟨-, hother⟩
    · rw [hid]
      exact h.active _ call hcall (haborted hnot)
    · exact h.active j other hother hnot
  · obtain ⟨j, hj⟩ := List.mem_iff_getElem?.mp hother
    rcases (Table.getElem?_set hcall).mp hj with ⟨-, rfl⟩ | ⟨hne, hj⟩
    · exact hself
    · exact hothers j other hne hj

theorem Inv.setCall {s : Subscriber} (h : s.Inv) {i : Nat} {call call' : GroupCall}
    (hcall : s.calls[i]? = some call) (hnext : call.Continues s.decoderReady call') :
    (s.setCall i call').Inv := by
  have hid : call'.groupId = call.groupId := congrArg SubgroupHeader.groupId hnext.header
  refine h.replace hcall hnext.header (fun hnot => hnext.aborted ▸ hnot) h.forward
    (fun d hd => List.mem_map.mpr (h.known d hd)) ?_
    fun j other _ hj => h.progress other (List.mem_of_getElem? hj)
  obtain ⟨payloads, tail, hitems, hpassed, hfirst, hreader⟩ :=
    h.progress call (List.mem_of_getElem? hcall)
  refine ⟨payloads, tail, hnext.stream ▸ hitems, ?_, hnext.isFirstObject.trans hfirst, ?_⟩
  · rw [hid]
    exact hpassed
  · intro hready hlive
    obtain ⟨hold, heq⟩ := hnext.reader hready hlive
    rw [heq]
    exact hreader hready hold

theorem decodedOf_concat (s : Subscriber) (calls : List GroupCall) (id : Nat)
    (chunk : EncodedVideoChunk) (groupId : Nat) :
    decodedOf { s with decoded := s.decoded ++ [(id, chunk)], calls } groupId =
      s.decodedOf groupId ++ if id = groupId then [chunk] else [] := by
  by_cases heq : id = groupId <;> simp [decodedOf, List.filter_append, heq]

theorem Inv.groupId_ne {s : Subscriber} (h : s.Inv) {i j : Nat} {call other : GroupCall}
    (hcall : s.calls[i]? = some call) (hother : s.calls[j]? = some other) (hne : j ≠ i) :
    call.groupId ≠ other.groupId := by
  intro heq
  have hj := (List.getElem?_eq_some_iff.mp hother).1
  refine hne ((List.getElem?_inj (by simpa using hj) h.decodesForward.once).mp ?_)
  rw [List.getElem?_map, List.getElem?_map, hother, hcall]
  exact congrArg some heq.symm

/-- The call of the active group passes the next object of its stream. -/
theorem Inv.pass {s : Subscriber} (h : s.Inv) {i : Nat} {call : GroupCall} (call' : GroupCall)
    {payload w : Bytes} (hcall : s.calls[i]? = some call) (hlive : call.Live)
    (haborted : call.aborted = false) (hready : s.decoderReady = true)
    (hobject : IsObject payload w) (hbytes : call.reader.bytes = w ++ call'.reader.bytes)
    (hheader : call'.header = call.header) (hstream : call'.stream = call.stream)
    (hfirst : call'.isFirstObject = false) :
    Inv { s with
      decoded := s.decoded ++
        [(call.groupId, { type := if call.isFirstObject then .key else .delta, data := payload })]
      calls := s.calls.set i call' } := by
  have hmem : call ∈ s.calls := List.mem_of_getElem? hcall
  have hid : call'.groupId = call.groupId := congrArg SubgroupHeader.groupId hheader
  refine h.replace hcall hheader (fun _ => haborted) ?_ ?_ ?_ ?_
  · rw [List.map_append, List.pairwise_append]
    refine ⟨h.forward, List.pairwise_singleton _ _, fun id hid' id' hnew => ?_⟩
    obtain rfl := List.mem_singleton.mp hnew
    obtain ⟨d, hd, rfl⟩ := List.mem_map.mp hid'
    obtain ⟨other, hother, heq⟩ := h.known d hd
    have hle := h.bounded other hother
    rw [← (h.active i call hcall haborted).2, heq] at hle
    exact Int.ofNat_le.mp hle
  · intro d hd
    rcases List.mem_append.mp hd with hd | hd
    · exact List.mem_map.mpr (h.known d hd)
    · obtain rfl := List.mem_singleton.mp hd
      exact List.mem_map_of_mem hmem
  · obtain ⟨payloads, tail, hitems, hpassed, hisFirst, hreader⟩ := h.progress call hmem
    obtain rfl := hreader hready hlive
    rw [hbytes] at hitems
    refine ⟨payloads ++ [payload], _, hstream ▸ hitems.concat hobject, ?_, by simp [hfirst],
      fun _ _ => rfl⟩
    rw [decodedOf_concat, hid, if_pos rfl, hpassed, hisFirst]
    cases payloads with
    | nil => rfl
    | cons first rest => exact (asChunks_append payload (List.cons_ne_nil first rest)).symm
  · -- another group has another ID
    intro j other hne hj
    obtain ⟨payloads, tail, hitems, hpassed, hrest⟩ := h.progress other (List.mem_of_getElem? hj)
    refine ⟨payloads, tail, hitems, ?_, hrest⟩
    rw [decodedOf_concat, if_neg (h.groupId_ne hcall hj hne), List.append_nil, hpassed]

theorem Inv.decode {s : Subscriber} (h : s.Inv) {i : Nat} {call : GroupCall} {payload w : Bytes}
    {reader : Chunked} (hcall : s.calls[i]? = some call) (hpoint : call.point = .reading)
    (haborted : call.aborted = false) (hready : s.decoderReady = true)
    (hobject : IsObject payload w) (hbytes : call.reader.bytes = w ++ reader.bytes)
    (accepted : Bool) :
    (s.decode i { call with reader } payload accepted).Inv := by
  cases accepted with
  | true =>
    obtain ⟨point, hloop⟩ := GroupCall.loop_eq
      { call with reader, isFirstObject := false, objectCount := call.objectCount + 1 }
    simp only [Subscriber.decode, if_true, hloop]
    exact h.pass _ hcall (.inr hpoint) haborted hready hobject hbytes rfl rfl rfl
  | false =>
    exact h.pass { call with reader, isFirstObject := false }.leave hcall (.inr hpoint) haborted
      hready hobject hbytes rfl rfl rfl

/-- Every call is aborted when another group becomes the active one. -/
theorem Inv.abortActive_eq {s : Subscriber} (h : s.Inv) :
    s.abortActive = s.calls.map GroupCall.abort := by
  have hold (i : Nat) (call : GroupCall) (hcall : s.calls[i]? = some call)
      (hne : s.activeAbort ≠ some i) : call.abort = call := by
    cases haborted : call.aborted with
    | true => rw [GroupCall.abort, ← haborted]
    | false => exact absurd (h.active i call hcall haborted).1 hne
  apply List.ext_getElem?
  intro i
  rw [List.getElem?_map, abortActive]
  cases hactive : s.activeAbort with
  | none =>
    cases hcall : s.calls[i]? with
    | none => rfl
    | some call => rw [Option.map_some, hold i call hcall (by simp [hactive])]
  | some k =>
    simp only [List.getElem?_modify]
    cases hcall : s.calls[i]? with
    | none => rfl
    | some call =>
      rw [Option.map_eq_map, Option.map_some, Option.map_some]
      by_cases heq : k = i
      · rw [if_pos heq]
      · rw [if_neg heq, hold i call hcall (by simp [hactive, heq])]

theorem processGroup_eq (s : Subscriber) (header : SubgroupHeader) (reader : Chunked) :
    ∃ point, s.processGroup header reader =
      { header, stream := reader, reader, aborted := false, isFirstObject := true,
        objectCount := 0, point } := by
  cases h : s.decoderReady with
  | true => exact ⟨.flushing, by simp [processGroup, h]⟩
  | false => exact ⟨.reading, by simp [processGroup, GroupCall.loop, h]⟩

/-- A group with a later ID becomes the active one. -/
theorem Inv.start {s : Subscriber} (h : s.Inv) {header : SubgroupHeader} (reader : Chunked)
    (hlt : s.activeGroupId < header.groupId) :
    Inv { s with
      activeGroupId := header.groupId
      activeAbort := some s.calls.length
      calls := s.abortActive ++ [s.processGroup header reader] } := by
  obtain ⟨point, hcall⟩ := s.processGroup_eq header reader
  rw [h.abortActive_eq, hcall]
  have hids : (s.calls.map GroupCall.abort).map GroupCall.groupId =
      s.calls.map GroupCall.groupId := by
    rw [List.map_map]
    rfl
  have hmem {call : GroupCall} (hcall : call ∈ s.calls.map GroupCall.abort) :
      ∃ old ∈ s.calls, call = old.abort := by
    obtain ⟨old, hold, rfl⟩ := List.mem_map.mp hcall
    exact ⟨old, hold, rfl⟩
  have hlater (call : GroupCall) (hmem : call ∈ s.calls) : call.groupId < header.groupId :=
    Int.ofNat_lt.mp (Int.lt_of_le_of_lt (h.bounded call hmem) hlt)
  have hnone : s.decodedOf header.groupId = [] := by
    rw [decodedOf, List.map_eq_nil_iff, List.filter_eq_nil_iff]
    intro d hd
    obtain ⟨call, hmem, heq⟩ := h.known d hd
    have hne := Nat.ne_of_lt (hlater call hmem)
    rw [heq] at hne
    simpa using hne
  refine ⟨h.forward, ?_, fun call hcall => ?_, fun d hd => ?_, fun i call hcall haborted => ?_,
    fun call hcall => ?_⟩
  · rw [List.map_append, hids, List.pairwise_append]
    refine ⟨h.increasing, List.pairwise_singleton _ _, fun id hid id' hnew => ?_⟩
    obtain rfl := List.mem_singleton.mp hnew
    obtain ⟨call, hmem, rfl⟩ := List.mem_map.mp hid
    exact hlater call hmem
  · rcases List.mem_append.mp hcall with hcall | hcall
    · obtain ⟨old, hold, rfl⟩ := hmem hcall
      exact Int.ofNat_le.mpr (Nat.le_of_lt (hlater old hold))
    · obtain rfl := List.mem_singleton.mp hcall
      exact Int.le_refl _
  · obtain ⟨call, hcall, heq⟩ := h.known d hd
    exact ⟨call.abort, List.mem_append_left _ (List.mem_map_of_mem hcall), heq⟩
  · rcases Table.getElem?_concat.mp hcall with hcall | ⟨rfl, rfl⟩
    · obtain ⟨old, -, rfl⟩ := hmem (List.mem_of_getElem? hcall)
      cases haborted
    · exact ⟨by rw [List.length_map], rfl⟩
  · rcases List.mem_append.mp hcall with hcall | hcall
    · obtain ⟨old, hold, rfl⟩ := hmem hcall
      exact h.progress old hold
    · obtain rfl := List.mem_singleton.mp hcall
      exact ⟨[], reader.bytes, .nil _, hnone, rfl, fun _ _ => rfl⟩

theorem Inv.receive {s : Subscriber} (h : s.Inv) (event : SessionEvent) :
    (s.receive event).Inv := by
  cases event with
  | subscribe message => exact h.frame _ _ _ id
  | dataStream header reader =>
    rw [Subscriber.receive]
    by_cases hle : (header.groupId : Int) ≤ s.activeGroupId
    · rw [if_pos hle]
      exact h.frame _ _ _ id
    · rw [if_neg hle]
      exact (h.start reader (Int.not_le.mp hle)).frame _ _ _ id

theorem Inv.afterRead {s : Subscriber} (h : s.Inv) {i : Nat} {call : GroupCall}
    (hcall : s.calls[i]? = some call) (hpoint : call.point = .reading) (accepted : Bool) :
    (s.afterRead i call accepted).Inv := by
  unfold Subscriber.afterRead
  split
  · exact h.setCall hcall (.leave _ call _)
  · rename_i payload reader hread
    obtain ⟨w, hobject, hbytes, -⟩ := nextObject_sound hread
    by_cases haborted : call.aborted = true
    · rw [if_pos haborted]
      exact h.setCall hcall (.leave _ call _)
    rw [if_neg haborted]
    by_cases hready : s.decoderReady = true
    · rw [if_pos hready]
      exact h.decode hcall hpoint (by simpa using haborted) hready hobject hbytes accepted
    · rw [if_neg hready]
      exact h.setCall hcall (.skip (by simpa using hready) call reader)
  · exact h.setCall hcall (.leave _ call call.reader)

/-- `stop` ends the session at most. -/
theorem stop_eq (s : Subscriber) :
    ∃ session stop, s.stop = { s with session, stops := s.stops ++ [stop] } := by
  unfold Subscriber.stop
  split
  · exact ⟨s.session, .flushing, rfl⟩
  · exact ⟨s.session, .ended, rfl⟩
  · exact ⟨false, .ended, rfl⟩

/-- When `stop` goes on it ends the session and the decoder at most. -/
theorem stopFlushed_eq (s : Subscriber) (j : Nat) : ∃ session decoder,
    (decoder = none ∨ decoder = s.decoder) ∧
      s.stopFlushed j = { s with session, decoder, stops := s.stops.set j .ended } := by
  unfold Subscriber.stopFlushed
  split
  · exact ⟨s.session, s.decoder, .inr rfl, rfl⟩
  · exact ⟨s.session, s.decoder, .inr rfl, rfl⟩
  · exact ⟨false, none, .inl rfl, rfl⟩

theorem Inv.stop {s : Subscriber} (h : s.Inv) : s.stop.Inv := by
  obtain ⟨session, stop, heq⟩ := s.stop_eq
  rw [heq]
  exact h.frame _ _ _ id

theorem Inv.stopFlushed {s : Subscriber} (h : s.Inv) (j : Nat) : (s.stopFlushed j).Inv := by
  obtain ⟨session, decoder, hdecoder, heq⟩ := s.stopFlushed_eq j
  rw [heq]
  refine h.frame _ _ _ fun hready => ?_
  rcases hdecoder with rfl | rfl
  · cases hready
  · exact hready

theorem waiting_eq_some {s : Subscriber} {i : Nat} {point : GroupPoint} {call : GroupCall} :
    s.waiting i point = some call ↔ s.calls[i]? = some call ∧ call.point = point := by
  simp [waiting, Option.filter_eq_some_iff]

theorem Inv.step {s s' : Subscriber} {l : SubscriberLabel} (h : s.Inv) (hs : s.step l = some s') :
    s'.Inv := by
  cases l with
  | event event =>
    obtain ⟨-, rfl⟩ := Option.ite_some_none_eq_some.mp hs
    exact h.receive event
  | endOfEvents =>
    obtain ⟨-, rfl⟩ := Option.ite_some_none_eq_some.mp hs
    exact h.frame _ _ _ id
  | flushed i =>
    obtain ⟨call, hwaiting, rfl⟩ := Option.map_eq_some_iff.mp hs
    obtain ⟨hcall, hpoint⟩ := waiting_eq_some.mp hwaiting
    exact h.setCall hcall (.loop _ (.inl hpoint))
  | flushFails i =>
    obtain ⟨call, hwaiting, rfl⟩ := Option.map_eq_some_iff.mp hs
    exact h.setCall (waiting_eq_some.mp hwaiting).1 (.returned _ call)
  | read i accepted =>
    obtain ⟨call, hwaiting, rfl⟩ := Option.map_eq_some_iff.mp hs
    obtain ⟨hcall, hpoint⟩ := waiting_eq_some.mp hwaiting
    exact h.afterRead hcall hpoint accepted
  | readFails i =>
    obtain ⟨call, hwaiting, rfl⟩ := Option.map_eq_some_iff.mp hs
    exact h.setCall (waiting_eq_some.mp hwaiting).1 (.leave _ call call.reader)
  | cancelled i =>
    obtain ⟨call, hwaiting, rfl⟩ := Option.map_eq_some_iff.mp hs
    exact h.setCall (waiting_eq_some.mp hwaiting).1 (.returned _ call)
  | decoderFails =>
    obtain ⟨-, rfl⟩ := Option.ite_some_none_eq_some.mp hs
    exact h.frame _ _ _ (by simp)
  | stop =>
    obtain rfl := Option.some.inj hs
    exact h.stop
  | stopFlushed j =>
    obtain ⟨-, rfl⟩ := Option.ite_some_none_eq_some.mp hs
    exact h.stopFlushed j
  | stopFlushFails j =>
    obtain ⟨-, rfl⟩ := Option.ite_some_none_eq_some.mp hs
    exact h.frame _ _ _ id

theorem inv_init : subscriber.init.Inv where
  forward := .nil
  increasing := .nil
  bounded := by simp [subscriber]
  known := by simp [subscriber]
  active := by simp [subscriber]
  progress := by simp [subscriber]

/-- However the streams arrive and the calls run, the decoder is not taken backwards. -/
theorem decodesForward_run (ls : List SubscriberLabel) :
    (subscriber.run subscriber.init ls).DecodesForward := by
  have hinv : (subscriber.run subscriber.init ls).Inv :=
    (subscriber.reachable_run ls).invariant inv_init fun _ _ _ h hs => h.step hs
  exact hinv.decodesForward

end Subscriber

end Moqt.Web
