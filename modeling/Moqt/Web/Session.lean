import Moqt.Library.Machine
import Moqt.Web.DataStream

/-! `MoqtSession.nextEvent`: the reads of the two queues of incoming streams are raced, and what the
loser has read is dropped.  The peer's streams arrive at any time; the calls are made one after the
other. -/

namespace Moqt.Web

open Library

/-- The two queues of incoming streams. -/
inductive Kind where
  | bidi
  | uni
deriving DecidableEq, Repr

def Kind.other : Kind → Kind
  | .bidi => .uni
  | .uni => .bidi

/-- What a call returns.  The reader of a data stream is what its header has left of it. -/
inductive SessionEvent where
  | subscribe (message : SubscribeMessage)
  | dataStream (header : SubgroupHeader) (reader : Chunked)
deriving DecidableEq, Repr

/-- What `nextEvent` makes of a stream that it has taken. -/
def readEvent : Kind → Chunked → Outcome SessionEvent
  | .bidi, stream => do
    let (frame, _) ← StreamReader.readMessageFrame stream
    let (msgType, _, _) ← decodeMessage frame 0
    if msgType = MSG_SUBSCRIBE then
      let message ← decodeSubscribe frame
      return .subscribe message
    else .err s!"unexpected bidi message: 0x{String.ofList (Nat.toDigits 16 msgType)}"
  | .uni, stream => do
    let (header, reader) ← readSubgroupHeader stream
    return .dataStream header reader

/-- What becomes of a call of `read`: the value is `none` when the queue is closed. -/
inductive Read where
  | pending
  | resolved (value : Option Chunked)
deriving DecidableEq, Repr

/-- The stream that a read has taken out of its queue. -/
def Read.taken : Read → List Chunked
  | .pending => []
  | .resolved value => value.toList

/-- The queue is closed: a read that waits for a stream is resolved without one. -/
def Read.close : Read → Read
  | .pending => .resolved none
  | .resolved value => .resolved value

@[simp] theorem Read.taken_close (read : Read) : read.close.taken = read.taken := by
  cases read with
  | pending | resolved => rfl

/-- Where a call of `nextEvent` is. -/
inductive Call where
  /-- There is none. -/
  | idle
  /-- In `Promise.race`, with the kind of the read that was resolved first. -/
  | racing (reads : Kind → Read) (first : Option Kind)
  /-- The locks are released, and the winner's stream is read. -/
  | reading (kind : Kind) (stream : Chunked)

/-- The streams that a call has taken and not dropped. -/
def Call.inCall : Call → Kind → List Chunked
  | .idle, _ => []
  | .racing reads _, kind => (reads kind).taken
  | .reading kind' stream, kind => if kind = kind' then [stream] else []

/-- A stream that a call has returned. -/
structure Reported where
  kind : Kind
  stream : Chunked
  event : SessionEvent

/-- The session with the two queues of its transport, and what has happened so far. -/
structure MoqtSession where
  queue : Kind → List Chunked := fun _ => []
  closed : Bool := false
  call : Call := .idle
  arrived : Kind → List Chunked := fun _ => []
  reported : List Reported := []
  results : List (Outcome SessionEvent) := []

inductive SessionLabel where
  | arrive (kind : Kind) (stream : Chunked)
  | close
  | nextEvent
  | settle
  | finish

namespace MoqtSession

/-- A stream is given to a read that waits for one, or is queued. -/
def deliver (s : MoqtSession) (kind : Kind) (stream : Chunked) : MoqtSession :=
  match s.call with
  | .racing reads first =>
    if reads kind = .pending then
      { s with
        call := .racing (Function.update reads kind (.resolved (some stream)))
          (first <|> some kind) }
    else { s with queue := Function.update s.queue kind (s.queue kind ++ [stream]) }
  | _ => { s with queue := Function.update s.queue kind (s.queue kind ++ [stream]) }

/-- What becomes of a call when the queues are closed. -/
def closeReads : Call → Call
  | .racing reads first => .racing (fun kind => (reads kind).close) (first <|> some .bidi)
  | call => call

/-- `read` on a queue. -/
def startRead (s : MoqtSession) (kind : Kind) : Read :=
  match s.queue kind with
  | stream :: _ => .resolved (some stream)
  | [] => if s.closed then .resolved none else .pending

/-- The two reads of a call.  The one of the bidirectional streams is made first. -/
def startRace (s : MoqtSession) : MoqtSession where
  queue := fun kind => (s.queue kind).tail
  closed := s.closed
  call := .racing s.startRead
    (if s.startRead .bidi ≠ .pending then some .bidi
      else if s.startRead .uni ≠ .pending then some .uni else none)
  arrived := s.arrived
  reported := s.reported
  results := s.results

/-- `Promise.race` has the value of the read that was resolved first, and `releaseLock` rejects the
other one if it is pending. -/
def settleRace (s : MoqtSession) (kind : Kind) : Read → Option MoqtSession
  | .pending => none
  | .resolved (some stream) => some { s with call := .reading kind stream }
  | .resolved none =>
    some { s with call := .idle, results := s.results ++ [.err "no incoming stream"] }

/-- The call returns what it has read, or throws. -/
def finishCall (s : MoqtSession) (kind : Kind) (stream : Chunked) : MoqtSession :=
  match readEvent kind stream with
  | .ok event =>
    { s with
      call := .idle
      reported := s.reported ++ [{ kind, stream, event }]
      results := s.results ++ [.ok event] }
  | error => { s with call := .idle, results := s.results ++ [error] }

def step (s : MoqtSession) : SessionLabel → Option MoqtSession
  | .arrive kind stream =>
    if s.closed then none
    else
      let s := { s with arrived := Function.update s.arrived kind (s.arrived kind ++ [stream]) }
      some (s.deliver kind stream)
  | .close =>
    if s.closed then none else some { s with closed := true, call := closeReads s.call }
  | .nextEvent =>
    match s.call with
    | .idle => some s.startRace
    | _ => none
  | .settle =>
    match s.call with
    | .racing reads (some first) => s.settleRace first (reads first)
    | _ => none
  | .finish =>
    match s.call with
    | .reading kind stream => some (s.finishCall kind stream)
    | _ => none

end MoqtSession

/-- A session from the time when it is connected. -/
def session : Machine MoqtSession SessionLabel where
  init := {}
  step := MoqtSession.step

namespace MoqtSession

/-- The streams of a kind that have been returned, in the order of the calls. -/
def reportedOf (s : MoqtSession) (kind : Kind) : List Chunked :=
  (s.reported.filter fun r => r.kind = kind).map Reported.stream

/-- Every stream that has arrived has been returned, or is with the call in progress, or is still in
its queue, and all of them are in the order of their arrival.  What is returned is what the stream
carries; no call fails as long as the queues are open; and there is a step to take as long as a
stream has not been returned. -/
structure LosesNothing (s : MoqtSession) : Prop where
  once : ∀ kind, s.arrived kind = s.reportedOf kind ++ s.call.inCall kind ++ s.queue kind
  faithful : ∀ r ∈ s.reported, readEvent r.kind r.stream = .ok r.event
  returned : s.closed = false → s.results = s.reported.map fun r => .ok r.event
  progress : (∃ kind, s.arrived kind ≠ s.reportedOf kind) →
    (s.step .nextEvent).isSome ∨ (s.step .settle).isSome ∨ (s.step .finish).isSome

/-- The stream carries what `nextEvent` expects of its kind. -/
def IsEvent (kind : Kind) (stream : Chunked) : Prop := ∃ event, readEvent kind stream = .ok event

/-- A stream that arrives carries an event, and does not arrive for the other read of a race that is
decided; a call finds at most one of the queues with streams in it, and the second one not when the
queues are closed. -/
def OneReadResolved (s : MoqtSession) : SessionLabel → Prop
  | .arrive kind stream => IsEvent kind stream ∧
    ∀ reads first, s.call = .racing reads (some first) → reads kind ≠ .pending
  | .nextEvent => s.queue .uni = [] ∨ (s.queue .bidi = [] ∧ s.closed = false)
  | _ => True

/-- A race that is not decided finds nothing in the queues; in one that is, the loser has taken
nothing. -/
def RaceOne (s : MoqtSession) : Call → Prop
  | .racing reads none =>
    s.closed = false ∧ ∀ kind, reads kind = .pending ∧ s.queue kind = []
  | .racing reads (some first) => (reads first.other).taken = [] ∧
    ((∃ stream, reads first = .resolved (some stream)) ∨
      (s.closed = true ∧ reads first = .resolved none))
  | _ => True

/-- What holds in every state of a run whose calls resolve one read each. -/
structure Inv (s : MoqtSession) : Prop where
  once : ∀ kind, s.arrived kind = s.reportedOf kind ++ s.call.inCall kind ++ s.queue kind
  isEvent : ∀ kind, ∀ stream ∈ s.call.inCall kind ++ s.queue kind, IsEvent kind stream
  faithful : ∀ r ∈ s.reported, readEvent r.kind r.stream = .ok r.event
  returned : s.closed = false → s.results = s.reported.map fun r => .ok r.event
  race : s.RaceOne s.call

theorem Inv.losesNothing {s : MoqtSession} (h : s.Inv) : s.LosesNothing := by
  refine ⟨h.once, h.faithful, h.returned, ?_⟩
  rintro ⟨kind, hkind⟩
  have honce := h.once kind
  have hrace := h.race
  cases hcall : s.call with
  | idle => exact .inl (by simp [step, hcall])
  | reading kind' stream => exact .inr (.inr (by simp [step, hcall]))
  | racing reads first =>
    rw [hcall] at hrace honce
    cases first with
    | none =>
      -- nothing that has arrived is left
      obtain ⟨-, hpending⟩ := hrace
      obtain ⟨hread, hqueue⟩ := hpending kind
      simp only [Call.inCall, hread, Read.taken, hqueue, List.append_nil] at honce
      exact absurd honce hkind
    | some first =>
      obtain ⟨-, ⟨stream, hread⟩ | ⟨-, hread⟩⟩ := hrace
      · exact .inr (.inl (by simp [step, hcall, settleRace, hread]))
      · exact .inr (.inl (by simp [step, hcall, settleRace, hread]))

theorem startRead_taken (s : MoqtSession) (kind : Kind) :
    (s.startRead kind).taken ++ (s.queue kind).tail = s.queue kind := by
  unfold startRead
  cases s.queue kind with
  | nil =>
    cases s.closed
    · rfl
    · rfl
  | cons stream rest => rfl

theorem startRead_nil {s : MoqtSession} {kind : Kind} (h : s.queue kind = []) :
    s.startRead kind = if s.closed then .resolved none else .pending := by
  rw [startRead, h]

theorem startRead_cons {s : MoqtSession} {kind : Kind} {stream : Chunked} {rest : List Chunked}
    (h : s.queue kind = stream :: rest) : s.startRead kind = .resolved (some stream) := by
  rw [startRead, h]

theorem startRace_race {s : MoqtSession}
    (hone : s.queue .uni = [] ∨ (s.queue .bidi = [] ∧ s.closed = false)) :
    s.startRace.RaceOne s.startRace.call := by
  simp only [startRace]
  cases hbidi : s.queue .bidi with
  | cons stream rest =>
    -- the first read is resolved with a stream, so the second one is not
    have huni : s.queue .uni = [] := hone.resolve_right fun h => by simp [hbidi] at h
    rw [startRead_cons hbidi, if_pos (by simp)]
    refine ⟨?_, .inl ⟨stream, startRead_cons hbidi⟩⟩
    rw [Kind.other, startRead_nil huni]
    cases s.closed
    · rfl
    · rfl
  | nil =>
    cases hclosed : s.closed with
    | true =>
      have huni : s.queue .uni = [] := hone.resolve_right fun h => by simp [hclosed] at h
      rw [startRead_nil hbidi, hclosed, if_pos (by simp)]
      refine ⟨?_, .inr ⟨rfl, ?_⟩⟩
      · rw [Kind.other, startRead_nil huni, hclosed]
        rfl
      · rw [startRead_nil hbidi, hclosed]
        rfl
    | false =>
      have hpending : s.startRead .bidi = .pending := by
        rw [startRead_nil hbidi, hclosed]
        rfl
      rw [hpending, if_neg (by simp)]
      cases huni : s.queue .uni with
      | cons stream rest =>
        rw [startRead_cons huni, if_pos (by simp)]
        refine ⟨?_, .inl ⟨stream, startRead_cons huni⟩⟩
        rw [Kind.other, hpending]
        rfl
      | nil =>
        have hpending' : s.startRead .uni = .pending := by
          rw [startRead_nil huni, hclosed]
          rfl
        rw [hpending', if_neg (by simp)]
        refine ⟨rfl, fun kind => ?_⟩
        cases kind with
        | bidi => exact ⟨hpending, congrArg List.tail hbidi⟩
        | uni => exact ⟨hpending', congrArg List.tail huni⟩

theorem Inv.startRace {s : MoqtSession} (h : s.Inv) (hidle : s.call = .idle)
    (hone : s.queue .uni = [] ∨ (s.queue .bidi = [] ∧ s.closed = false)) : s.startRace.Inv := by
  have htaken (kind : Kind) :
      s.startRace.call.inCall kind ++ s.startRace.queue kind = s.queue kind :=
    s.startRead_taken kind
  have honce (kind : Kind) : s.arrived kind = s.reportedOf kind ++ s.queue kind := by
    simpa [hidle, Call.inCall] using h.once kind
  refine ⟨fun kind => ?_, fun kind stream hmem => ?_, h.faithful, h.returned, startRace_race hone⟩
  · rw [List.append_assoc, htaken]
    exact honce kind
  · rw [htaken] at hmem
    exact h.isEvent kind stream (List.mem_append_right _ hmem)

theorem Inv.enqueue {s : MoqtSession} (h : s.Inv) {kind : Kind} {stream : Chunked}
    (hevent : IsEvent kind stream) (hrace : ∀ reads, s.call ≠ .racing reads none) :
    Inv { s with
      arrived := Function.update s.arrived kind (s.arrived kind ++ [stream])
      queue := Function.update s.queue kind (s.queue kind ++ [stream]) } := by
  refine ⟨fun kind' => ?_, fun kind' stream' hmem => ?_, h.faithful, h.returned, ?_⟩
  · have honce := h.once kind'
    by_cases heq : kind' = kind
    · subst heq
      simp only [Function.update_self, ← List.append_assoc]
      rw [honce]
      rfl
    · simp only [Function.update_of_ne heq]
      exact honce
  · have hold := h.isEvent kind' stream'
    by_cases heq : kind' = kind
    · subst heq
      simp only [Function.update_self, ← List.append_assoc] at hmem
      rcases List.mem_append.mp hmem with hmem | hmem
      · exact hold hmem
      · obtain rfl := List.mem_singleton.mp hmem
        exact hevent
    · simp only [Function.update_of_ne heq] at hmem
      exact hold hmem
  · have hold := h.race
    cases hcall : s.call with
    | idle | reading => trivial
    | racing reads first =>
      cases first with
      | none => exact absurd hcall (hrace reads)
      | some first =>
        rw [hcall] at hold
        exact hold

theorem Inv.resolve {s : MoqtSession} (h : s.Inv) {reads : Kind → Read}
    (hcall : s.call = .racing reads none) {kind : Kind} {stream : Chunked}
    (hevent : IsEvent kind stream) :
    Inv { s with
      arrived := Function.update s.arrived kind (s.arrived kind ++ [stream])
      call := .racing (Function.update reads kind (.resolved (some stream))) (some kind) } := by
  have hrace := h.race
  rw [hcall] at hrace
  obtain ⟨-, hpending⟩ := hrace
  refine ⟨fun kind' => ?_, fun kind' stream' hmem => ?_, h.faithful, h.returned, ?_⟩
  · have honce := h.once kind'
    obtain ⟨hread, hqueue⟩ := hpending kind'
    simp only [hcall, Call.inCall, hread, Read.taken, hqueue, List.append_nil] at honce
    by_cases heq : kind' = kind
    · subst heq
      simp only [Function.update_self, hqueue, Call.inCall, Read.taken, List.append_nil, honce]
      rfl
    · simp only [Function.update_of_ne heq, hqueue, Call.inCall, hread, Read.taken,
        List.append_nil, honce]
      rfl
  · obtain ⟨hread, hqueue⟩ := hpending kind'
    by_cases heq : kind' = kind
    · subst heq
      simp only [Call.inCall, Function.update_self, Read.taken, hqueue, List.append_nil,
        Option.toList_some, List.mem_singleton] at hmem
      subst hmem
      exact hevent
    · simp [Call.inCall, Function.update_of_ne heq, Read.taken, hqueue, hread] at hmem
  · refine ⟨?_, .inl ⟨stream, by rw [Function.update_self]⟩⟩
    have hne : kind.other ≠ kind := by cases kind <;> simp [Kind.other]
    rw [Function.update_of_ne hne, (hpending _).1]
    rfl

theorem Inv.arrive {s : MoqtSession} (h : s.Inv) {kind : Kind} {stream : Chunked}
    (hevent : IsEvent kind stream)
    (hone : ∀ reads first, s.call = .racing reads (some first) → reads kind ≠ .pending) :
    Inv (deliver { s with
      arrived := Function.update s.arrived kind (s.arrived kind ++ [stream]) } kind stream) := by
  have hrace := h.race
  cases hcall : s.call with
  | idle =>
    simp only [deliver]
    simpa only [← hcall] using h.enqueue hevent (by simp [hcall])
  | reading kind' stream' =>
    simp only [deliver]
    simpa only [← hcall] using h.enqueue hevent (by simp [hcall])
  | racing reads first =>
    rw [hcall] at hrace
    cases first with
    | none =>
      obtain ⟨-, hpending⟩ := hrace
      simp only [deliver, if_pos (hpending kind).1]
      exact h.resolve hcall hevent
    | some first =>
      simp only [deliver, if_neg (hone reads first hcall)]
      simpa only [← hcall] using h.enqueue hevent (by simp [hcall])

theorem Inv.close {s : MoqtSession} (h : s.Inv) :
    Inv { s with closed := true, call := closeReads s.call } := by
  have hrace := h.race
  have hin (kind : Kind) : (closeReads s.call).inCall kind = s.call.inCall kind := by
    cases s.call with
    | idle | reading => rfl
    | racing reads first => exact Read.taken_close (reads kind)
  refine ⟨fun kind => ?_, fun kind stream hmem => ?_, h.faithful, nofun, ?_⟩
  · rw [hin]
    exact h.once kind
  · rw [hin] at hmem
    exact h.isEvent kind stream hmem
  · cases hcall : s.call with
    | idle | reading => trivial
    | racing reads first =>
      rw [hcall] at hrace
      cases first with
      | none =>
        obtain ⟨-, hpending⟩ := hrace
        have hclosed (kind : Kind) : (reads kind).close = .resolved none := by
          rw [(hpending kind).1]
          rfl
        exact ⟨by rw [Read.taken_close, (hpending _).1]; rfl, .inr ⟨rfl, hclosed .bidi⟩⟩
      | some first =>
        obtain ⟨hloser, hwinner⟩ := hrace
        refine ⟨by rw [Read.taken_close, hloser], ?_⟩
        rcases hwinner with ⟨stream, hread⟩ | ⟨-, hread⟩
        · exact .inl ⟨stream, congrArg Read.close hread⟩
        · exact .inr ⟨rfl, congrArg Read.close hread⟩

theorem Inv.settle {s s' : MoqtSession} (h : s.Inv) {reads : Kind → Read} {first : Kind}
    (hcall : s.call = .racing reads (some first))
    (hs : s.settleRace first (reads first) = some s') : s'.Inv := by
  have hrace := h.race
  rw [hcall] at hrace
  obtain ⟨hloser, hwinner⟩ := hrace
  have hother {kind : Kind} (hne : kind ≠ first) : (reads kind).taken = [] := by
    obtain rfl : kind = first.other := by cases kind <;> cases first <;> simp_all [Kind.other]
    exact hloser
  rcases hwinner with ⟨stream, hread⟩ | ⟨hclosed, hread⟩
  · rw [hread] at hs
    obtain rfl := Option.some.inj hs
    have hin (kind : Kind) :
        (Call.reading first stream).inCall kind = s.call.inCall kind := by
      rw [hcall]
      by_cases heq : kind = first
      · subst heq
        simp [Call.inCall, hread, Read.taken]
      · simp [Call.inCall, heq, hother heq]
    refine ⟨fun kind => ?_, fun kind stream' hmem => ?_, h.faithful, h.returned, trivial⟩
    · rw [hin]
      exact h.once kind
    · rw [hin] at hmem
      exact h.isEvent kind stream' hmem
  · rw [hread] at hs
    obtain rfl := Option.some.inj hs
    have hin (kind : Kind) : Call.idle.inCall kind = s.call.inCall kind := by
      rw [hcall]
      by_cases heq : kind = first
      · subst heq
        simp [Call.inCall, hread, Read.taken]
      · simp [Call.inCall, hother heq]
    refine ⟨fun kind => ?_, fun kind stream' hmem => ?_, h.faithful, fun hopen => ?_, trivial⟩
    · rw [hin]
      exact h.once kind
    · rw [hin] at hmem
      exact h.isEvent kind stream' hmem
    · rw [show s.closed = false from hopen] at hclosed
      cases hclosed

theorem Inv.finish {s : MoqtSession} (h : s.Inv) {kind : Kind} {stream : Chunked}
    (hcall : s.call = .reading kind stream) : (s.finishCall kind stream).Inv := by
  obtain ⟨event, hread⟩ := h.isEvent kind stream (by simp [hcall, Call.inCall])
  simp only [finishCall, hread]
  refine ⟨fun kind' => ?_, fun kind' stream' hmem => ?_, fun r hr => ?_, fun hopen => ?_, trivial⟩
  · have honce := h.once kind'
    rw [hcall] at honce
    by_cases heq : kind' = kind
    · subst heq
      simpa [reportedOf, Call.inCall] using honce
    · simpa [reportedOf, Call.inCall, heq, Ne.symm heq] using honce
  · simp only [Call.inCall, List.nil_append] at hmem
    exact h.isEvent kind' stream' (List.mem_append_right _ hmem)
  · rcases List.mem_append.mp hr with hr | hr
    · exact h.faithful r hr
    · obtain rfl := List.mem_singleton.mp hr
      exact hread
  · rw [List.map_append]
    exact congrArg (· ++ [Outcome.ok event]) (h.returned hopen)

/-- A step whose call resolves one read keeps what no stream is lost by. -/
theorem Inv.step {s s' : MoqtSession} {l : SessionLabel} (h : s.Inv) (hone : s.OneReadResolved l)
    (hs : s.step l = some s') : s'.Inv := by
  cases l with
  | arrive kind stream =>
    simp only [MoqtSession.step] at hs
    split at hs
    · cases hs
    · obtain rfl := Option.some.inj hs
      exact h.arrive hone.1 hone.2
  | close =>
    simp only [MoqtSession.step] at hs
    split at hs
    · cases hs
    · obtain rfl := Option.some.inj hs
      exact h.close
  | nextEvent =>
    simp only [MoqtSession.step] at hs
    split at hs
    next hidle =>
      obtain rfl := Option.some.inj hs
      exact h.startRace hidle hone
    · cases hs
  | settle =>
    simp only [MoqtSession.step] at hs
    split at hs
    next reads first hcall => exact h.settle hcall hs
    · cases hs
  | finish =>
    simp only [MoqtSession.step] at hs
    split at hs
    next kind stream hcall =>
      obtain rfl := Option.some.inj hs
      exact h.finish hcall
    · cases hs

theorem inv_init : Inv {} where
  once _ := rfl
  isEvent kind stream hmem := by cases hmem
  faithful r hr := by cases hr
  returned _ := rfl
  race := trivial

end MoqtSession

open MoqtSession

/-- A run whose calls resolve one read each loses no stream. -/
theorem losesNothing_of_oneReadResolved {ls : List SessionLabel}
    (h : session.Meets OneReadResolved session.init ls) :
    LosesNothing (session.run session.init ls) :=
  (session.invariant inv_init (fun _ _ _ hI hone hs => hI.step hone hs) h).losesNothing

/-- A call that finds streams in both queues loses the one that it has read from the second. -/
theorem not_losesNothing_of_queued {s : MoqtSession} (h : s.Inv) (hidle : s.call = .idle)
    (hbidi : s.queue .bidi ≠ []) (huni : s.queue .uni ≠ []) :
    ¬LosesNothing (session.run s [.nextEvent, .settle]) := by
  obtain ⟨stream, rest, hstream⟩ := List.exists_cons_of_ne_nil hbidi
  obtain ⟨lost, rest', hlost⟩ := List.exists_cons_of_ne_nil huni
  have hstart : session.step s .nextEvent = some s.startRace := by
    simp [session, MoqtSession.step, hidle]
  have hcall : s.startRace.call = .racing s.startRead (some .bidi) := by
    simp [startRace, startRead_cons hstream]
  have hsettle : session.step s.startRace .settle =
      some { s.startRace with call := .reading .bidi stream } := by
    simp only [session, MoqtSession.step, hcall, startRead_cons hstream]
    rfl
  rw [Machine.run_cons, Machine.next_of_step hstart, Machine.run_cons,
    Machine.next_of_step hsettle, Machine.run_nil]
  intro hnothing
  have hbefore : s.arrived .uni = s.reportedOf .uni ++ s.queue .uni := by
    simpa [hidle, Call.inCall] using h.once .uni
  have hafter : s.arrived .uni = s.reportedOf .uni ++ [] ++ (s.queue .uni).tail :=
    hnothing.once .uni
  have hlengths := congrArg List.length (hbefore.symm.trans hafter)
  simp only [hlost, List.tail_cons, List.length_append, List.length_cons, List.length_nil]
    at hlengths
  omega

/-- A SUBSCRIBE for the track `b` of the namespace `a`. -/
def subscribeStream : Chunked where
  chunks := [[0x03, 0, 8, 0, 0, 1, 1, 97, 1, 98, 0]]
  ending := .finished

/-- The header of a subgroup, and nothing behind it. -/
def subgroupStream : Chunked where
  chunks := [[0x30, 1, 2]]
  ending := .finished

theorem isEvent_subscribeStream : IsEvent .bidi subscribeStream :=
  ⟨.subscribe ⟨0, 0, ⟨[[97]]⟩, [98], []⟩, by decide⟩

theorem isEvent_subgroupStream : IsEvent .uni subgroupStream :=
  ⟨.dataStream ⟨1, 2, false, false, none, none⟩ { chunks := [], ending := .finished }, by decide⟩

/-- Both queues have a stream when the call is made. -/
theorem not_losesNothing_bothQueued : ¬∀ ls : List SessionLabel,
    (∀ kind stream, SessionLabel.arrive kind stream ∈ ls → IsEvent kind stream) →
      LosesNothing (session.run session.init ls) := by
  intro h
  have hlost := (h [.arrive .bidi subscribeStream, .arrive .uni subgroupStream, .nextEvent, .settle,
    .finish] ?_).once .uni
  · cases hlost
  · intro kind stream hmem
    simp only [List.mem_cons, SessionLabel.arrive.injEq, reduceCtorEq, List.not_mem_nil,
      or_false] at hmem
    rcases hmem with ⟨rfl, rfl⟩ | ⟨rfl, rfl⟩
    · exact isEvent_subscribeStream
    · exact isEvent_subgroupStream

theorem losesNothing_oneAfterTheOther :
    LosesNothing (session.run session.init [.arrive .bidi subscribeStream, .nextEvent, .settle,
      .arrive .uni subgroupStream, .finish, .nextEvent, .settle, .finish]) :=
  losesNothing_of_oneReadResolved ⟨fun _ => ⟨isEvent_subscribeStream, nofun⟩, fun _ => .inl rfl,
    fun _ => trivial, fun _ => ⟨isEvent_subgroupStream, nofun⟩, fun _ => trivial,
    fun _ => .inr ⟨rfl, rfl⟩, fun _ => trivial, fun _ => trivial, trivial⟩

end Moqt.Web
