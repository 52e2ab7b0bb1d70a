import Moqt.Pub.Request
import Moqt.Relay.RequestStream
import Moqt.Wire.Normal

/-! A subscription as its subscriber sees it.  What comes back on the request stream of a SUBSCRIBE
is what the publisher has answered to the relay, or the relay's own rejection; and if only a front
of it has come, the subscriber waits, and is not misled. -/

namespace Moqt.System

open Library Moqt.Wire Moqt.Relay Moqt.Sub

/-! ### Request streams of a network -/

/-- A PUBLISH_DONE goes to the list of the task's own upstream subscription, and to requests that
have been answered. -/
def EndsInOrder (n : Network) : NetworkLabel → Prop
  | .relay l => FetchesOwn n.world l ∧ AnsweredFirst n.world l
  | .openBi _ _ | .openUni _ _ | .close _ | .answer _ _ => True

instance (n : Network) : (l : NetworkLabel) → Decidable (EndsInOrder n l)
  | .relay l => inferInstanceAs (Decidable (FetchesOwn n.world l ∧ AnsweredFirst n.world l))
  | .openBi _ _ | .openUni _ _ | .close _ | .answer _ _ => isTrue trivial

theorem spoken_of_endsInOrder {ls : List NetworkLabel}
    (h : network.Meets EndsInOrder network.init ls) :
    Spoken (network.run network.init ls).world := by
  have hworld := reachable_world (network.reachable_run ls)
  have hends : InOrder (network.run network.init ls).world ∧
      Notified (network.run network.init ls).world := by
    refine network.invariant (I := fun n => InOrder n.world ∧ Notified n.world) ⟨.new, .new⟩ ?_ h
    rintro n l n' ⟨horder, hnotified⟩ hl hstep
    rcases (NetworkStep.of_step hstep).world with ⟨l', rfl, hrelay⟩ | ⟨-, hsame⟩
    · have hrelay := Step.of_step hrelay
      exact ⟨horder.step hl.2 hrelay, hnotified.step horder.lifecycle hl.1 hrelay⟩
    · rw [hsame]
      exact ⟨horder, hnotified⟩
  refine ⟨hends.1, hends.2, ?_, allRejected_of_reachable hworld, owned_of_reachable hworld,
    allEncode_of_reachable hworld, oneAnswerEach_of_reachable hworld⟩
  obtain ⟨relayLabels, hrun⟩ := hworld
  exact hrun ▸ okWritten_of_run relayLabels

theorem donesSent_of_reachable {n : Network} (h : network.Reachable n) : DonesSent n := by
  refine h.induction (fun k _ _ ho => absurd ho (World.not_task_new k)) ?_
  intro n l n' hn hsent hstep
  exact DonesSent.step hsent (answers_of_reachable hn) (.of_step hstep)

/-- Every answer of a run has been sent in it. -/
theorem answers_of_run {P : RequestMessage → Prop} {ls : List NetworkLabel}
    (h : ∀ k message, NetworkLabel.answer k message ∈ ls → P message) :
    ∀ a ∈ (network.run network.init ls).answers, P a.2 := by
  have hlabels : ∀ l ∈ ls, ∀ k message, l = .answer k message → P message :=
    fun l hl k message heq => h k message (heq ▸ hl)
  refine network.invariant (I := fun n => ∀ a ∈ n.answers, P a.2)
    (fun a ha => nomatch ha) ?_ (Machine.meets_of_labels _ hlabels)
  intro n l n' hn hl hstep a ha
  cases (NetworkStep.of_step hstep).unreadMove with
  | same hunread hanswers => exact hn a (hanswers ▸ ha)
  | read _ hfind hunread hanswers => exact hn a (hanswers ▸ ha)
  | sent message heq ht hsent hworld hunread hanswers =>
    rw [hanswers] at ha
    rcases List.mem_append.mp ha with hold | hnew
    · exact hn a hold
    · obtain rfl := List.mem_singleton.mp hnew
      exact hl _ _ heq

/-! ### What the subscriber hears -/

/-- The publisher has accepted the SUBSCRIBE of the task `k`, which is for the track that `message`
asks for. -/
structure Accepts (n : Network) (message : SubscribeMessage) (k : RequestId)
    (ok : SubscribeOkMessage) : Prop where
  asked : ∃ owner request, n.world.task k = some owner ∧ owner.upstreamRequest = some request ∧
    World.trackOf request = World.trackOf message
  answered : n.answers.find? (·.1 = k) = some (k, .subscribeOk ok)

/-- What a subscriber hears of the end: what the publisher has said of it, or nothing as long as
that is not there as a whole. -/
inductive HearsEnd (n : Network) (t : SubscribeTask) (k : RequestId) (rest : ByteStream) : Prop
  | done {done : PublishDoneMessage} {rest' : ByteStream}
      (hreturns : recvPublishDone.Returns rest done rest')
      (hsent : (k, RequestMessage.publishDone done) ∈ n.answers)
  | waits (hfails : ∃ e, recvPublishDone.Fails rest (.readExact e))
      (hcut : ∀ response ∈ t.written[1]?, rest.bytes.length < response.frame.length)

/-- What a subscriber hears on its request stream, of which `s` has come: that the publisher has
accepted, and what it has said of the end; that the relay has rejected the SUBSCRIBE, and why; or
nothing, as long as the response is not there as a whole. -/
inductive Hears (replace : Bytes → String) (n : Network) (t : SubscribeTask) (s : ByteStream) : Prop
  | accepted {k : RequestId} {ok : SubscribeOkMessage} {rest : ByteStream}
      (hreturns : (subscribe replace).Returns s ok rest)
      (hfilter : World.hasUnsupportedFilter t.message = false)
      (haccepts : Accepts n t.message k ok) (hend : HearsEnd n t k rest)
  | unsupported (hfails : (subscribe replace).Fails s
        (.error "SUBSCRIBE rejected: only NextGroupStart filter is supported"))
      (hfilter : World.hasUnsupportedFilter t.message = true)
  | noPublisher (hfails : (subscribe replace).Fails s
        (.error "SUBSCRIBE rejected: no publisher for namespace"))
      (hfilter : World.hasUnsupportedFilter t.message = false)
  | waits (hfails : ∃ e, (subscribe replace).Fails s (.readExact e))
      (hcut : ∀ response ∈ t.written.head?, s.bytes.length < response.frame.length)

section Conversation

variable {n : Network} {r : RequestId} {t : SubscribeTask} {s : ByteStream}

/-- A SUBSCRIBE_OK on a request stream is what a publisher has answered for the track. -/
theorem accepts_of_owner (h : network.Reachable n) (ht : n.world.task r = some t)
    {answer : Received SubscribeOkMessage} {owner : SubscribeTask}
    (hfrom : t.OkFrom n.world answer owner) :
    Accepts n t.message answer.upstream answer.message := by
  obtain ⟨howner, hok, htrack, -, -⟩ := hfrom
  have hanswers := answers_of_reachable h
  have hfirst := hanswers.first answer.upstream owner answer.message howner hok
  refine ⟨?_, hfirst⟩
  obtain ⟨relayLabels, hrun⟩ := reachable_world h
  have hasks : AllAsk n.world := hrun ▸ allAsk_of_run relayLabels
  obtain ⟨owner', howner', hsome⟩ := hanswers.asked _ (List.mem_of_find?_eq_some hfirst)
  obtain rfl := Option.mem_unique howner howner'
  obtain ⟨request, hrequest⟩ := Option.isSome_iff_exists.mp hsome
  obtain ⟨track, hnamed, hasked⟩ := (hasks _ owner howner).asked request hrequest
  refine ⟨owner, request, howner, hrequest, ?_⟩
  rw [hasked, (hasks r t ht).named track (htrack.symm.trans hnamed)]

/-- A REQUEST_ERROR of the relay is short. -/
theorem withinLimits_of_rejects {m : SubscribeMessage} {error : RequestErrorMessage}
    (h : Rejects m error) : (RequestMessage.requestError error).WithinLimits := by
  rcases h with ⟨rfl, -⟩ | ⟨rfl, -⟩
  · refine ⟨trivial, trivial, ?_, by decide +kernel⟩
    rintro rp ⟨⟩
    decide +kernel
  · refine ⟨trivial, trivial, ?_, by decide +kernel⟩
    rintro rp ⟨⟩
    decide +kernel

variable {replace : Bytes → String} {answer : Received SubscribeOkMessage} {more : Bytes}

/-- Behind a SUBSCRIBE_OK the subscriber hears the end. -/
theorem hears_accepted (hlimits : (RequestMessage.subscribeOk answer.message).WithinLimits)
    (hfilter : World.hasUnsupportedFilter t.message = false)
    (haccepts : Accepts n t.message answer.upstream answer.message)
    (hfirst : t.written.head? = some (.subscribeOk answer))
    (hs : s.bytes <+: Response.frame (.subscribeOk answer) ++ more)
    (hend : ∀ rest : ByteStream, rest.bytes <+: more → HearsEnd n t answer.upstream rest) :
    Hears replace n t s := by
  have hencode : answer.message.encode = .ok (Response.frame (.subscribeOk answer)) :=
    Response.encode_frame (.subscribeOk answer) hlimits
  rcases (subscribe_awaits hlimits hencode).of_front hs with
    ⟨rest, hreturns, hrest⟩ | ⟨hshort, hfails⟩
  · exact .accepted hreturns hfilter haccepts (hend rest hrest)
  · refine .waits hfails ?_
    rw [hfirst]
    rintro response ⟨⟩
    exact hshort

theorem hears_rejected {error : RequestErrorMessage} (h : Rejects t.message error)
    (hfirst : t.written.head? = some (.requestError error))
    (hs : s.bytes <+: Response.frame (.requestError error)) : Hears replace n t s := by
  have hlimits := withinLimits_of_rejects h
  have hframe : Response.frame (.requestError error) ++ [] = error.encode ++ [] := rfl
  rw [← List.append_nil (Response.frame _), hframe] at hs
  rcases subscribe_rejected hlimits hs with hfails | ⟨hshort, hfails⟩
  · rcases h with ⟨rfl, hfilter⟩ | ⟨rfl, hfilter⟩
    · have hreason : World.unsupportedFilter.reasonPhrase =
          .ofString "only NextGroupStart filter is supported" := rfl
      rw [hreason, fromUtf8Lossy_ofString] at hfails
      exact .unsupported hfails hfilter
    · have hreason : World.noPublisher.reasonPhrase = .ofString "no publisher for namespace" := rfl
      rw [hreason, fromUtf8Lossy_ofString] at hfails
      exact .noPublisher hfails hfilter
  · refine .waits hfails ?_
    rw [hfirst]
    rintro response ⟨⟩
    exact hshort

/-- A SUBSCRIBE_OK that the relay has read, and written to a subscriber, is within the limits. -/
theorem withinLimits_of_okFrom {owner : SubscribeTask} (hfrom : t.OkFrom n.world answer owner)
    (hread : (RequestMessage.subscribeOk answer.message).Read) :
    (RequestMessage.subscribeOk answer.message).WithinLimits := by
  have hencodes := hfrom.encodes
  cases hencode : answer.message.encode with
  | ok frame => exact hread.subscribeOk hencode
  | _ =>
    rw [hencode] at hencodes
    cases hencodes

end Conversation

/-- The subscriber of a request hears what the publisher has answered for its track, or the relay's
rejection, and is not misled by what has come of it. -/
theorem hears_publisher (replace : Bytes → String) {ls : List NetworkLabel}
    (hends : network.Meets EndsInOrder network.init ls)
    (hread : ∀ k message, NetworkLabel.answer k message ∈ ls → message.Read)
    {r : RequestId} {t : SubscribeTask} (ht : (network.run network.init ls).world.task r = some t)
    (hwrites : t.failedWrite = false) {s : ByteStream} (hs : t.Carries s) :
    Hears replace (network.run network.init ls) t s := by
  have hheard := (spoken_of_endsInOrder hends).heard ht hwrites
  have hread := answers_of_run hread
  have hreachable := network.reachable_run ls
  have hdones := donesSent_of_reachable hreachable
  generalize network.run network.init ls = n at *
  have hlimits {answer : Received SubscribeOkMessage} {owner : SubscribeTask}
      (hfrom : t.OkFrom n.world answer owner) :
      (RequestMessage.subscribeOk answer.message).WithinLimits :=
    withinLimits_of_okFrom hfrom
      (hread _ (List.mem_of_find?_eq_some (accepts_of_owner hreachable ht hfrom).answered))
  obtain ⟨written, hwritten⟩ : ∃ written, t.written = written := ⟨_, rfl⟩
  rw [SubscribeTask.Carries, hwritten] at hs
  rw [hwritten] at hheard
  cases hheard with
  | nothing =>
    refine .waits (subscribe_starves (List.prefix_nil.mp hs)) ?_
    rw [hwritten]
    rintro response ⟨⟩
  | rejected hrejects =>
    exact hears_rejected hrejects (by rw [hwritten]; rfl) (by simpa using hs)
  | accepted hfrom =>
    refine hears_accepted (hlimits hfrom) hfrom.filters (accepts_of_owner hreachable ht hfrom)
      (by rw [hwritten]; rfl) hs fun rest hrest => ?_
    refine .waits (recvPublishDone_starves (List.prefix_nil.mp hrest)) ?_
    rw [hwritten]
    rintro response ⟨⟩
  | @ended answer done owner hfrom hdone =>
    refine hears_accepted (hlimits hfrom) hfrom.filters (accepts_of_owner hreachable ht hfrom)
      (by rw [hwritten]; rfl) hs fun rest hrest => ?_
    have hsent := hdones _ owner done hfrom.task hdone
    have hawaits : recvPublishDone.Awaits (Response.frame (.publishDone done)) done.message :=
      recvPublishDone_awaits (hread _ hsent).publishDone
    rcases hawaits.of_front hrest with ⟨rest', hreturns, -⟩ | ⟨hshort, hfails⟩
    · exact .done hreturns hsent
    · refine .waits hfails ?_
      rw [hwritten]
      rintro response ⟨⟩
      exact hshort

/-- The publisher accepts the SUBSCRIBE, and ends the subscription with `done`. -/
def concluded (done : PublishDoneMessage) : List NetworkLabel :=
  [NetworkLabel.relay .connect, .relay .connect] ++ Schedule.publish 0 0 ++ Schedule.request 1 0 ++
    Schedule.upstream 0 ++ Schedule.establish 0 ++
    [.answer 0 (.publishDone done), .relay (.subscribe 0 (.response (some (.publishDone done)))),
      .relay (.subscribe 0 .proceed), .relay (.subscribe 0 (.responded 0 true))]

/-- What holds of the two answers holds of every one. -/
theorem answers_concluded {P : RequestMessage → Prop} {done : PublishDoneMessage}
    (haccept : P (.subscribeOk (Pub.acceptMessage 7))) (hdone : P (.publishDone done))
    (k : RequestId) (message : RequestMessage)
    (h : NetworkLabel.answer k message ∈ concluded done) : P message := by
  have hcases : k = 0 ∧ message = .subscribeOk (Pub.acceptMessage 7) ∨
      k = 0 ∧ message = .publishDone done := by
    simpa [concluded, Schedule.publish, Schedule.request, Schedule.upstream,
      Schedule.establish, Pub.acceptMessage] using h
  rcases hcases with ⟨-, rfl⟩ | ⟨-, rfl⟩
  · exact haccept
  · exact hdone

/-- A Rust client's answers are messages that the relay has read. -/
theorem read_concluded (k : RequestId) (message : RequestMessage)
    (h : NetworkLabel.answer k message ∈ concluded (Pub.publishDoneMessage 0)) :
    message.Read :=
  answers_concluded ⟨[4, 0, 3, 7, 0, 0], [], by decide⟩ ⟨[11, 0, 3, 2, 0, 0], [], by decide⟩
    k message h

/-- The last byte of PUBLISH_DONE has not come. -/
theorem hears_publisher_concluded : ∃ t,
    (network.run network.init (concluded (Pub.publishDoneMessage 0))).world.task 0 = some t ∧
      Hears (fun _ => "") (network.run network.init (concluded (Pub.publishDoneMessage 0))) t
        { bytes := [4, 0, 3, 7, 0, 0, 11, 0, 3, 2, 0], ending := .finished } := by
  have hrun : ∃ t ∈ (network.run network.init
      (concluded (Pub.publishDoneMessage 0))).world.task 0, t.failedWrite = false ∧
        t.written.flatMap Response.frame = [4, 0, 3, 7, 0, 0, 11, 0, 3, 2, 0, 0] := by
    decide +kernel
  obtain ⟨t, ht, hwrites, hwritten⟩ := hrun
  refine ⟨t, ht, hears_publisher _ (by decide +kernel) read_concluded ht hwrites ?_⟩
  rw [SubscribeTask.Carries, hwritten]
  decide

end Moqt.System
