import Moqt.Relay.Last
import Moqt.Relay.Order
import Moqt.Relay.Serialized
import Moqt.Wire.RoundTrip

/-! The request stream of a SUBSCRIBE as a whole.  What has been written on it is an answer, and the
end of what the answer has begun: a REQUEST_ERROR that fits the SUBSCRIBE, or the SUBSCRIBE_OK of a
task for the same track, with the PUBLISH_DONE of that task behind it. -/

namespace Moqt.Relay

open Library Wire

/-! ### Rejections -/

/-- The REQUEST_ERROR is the one that the SUBSCRIBE is rejected with: for its filter, or for want of
a publisher. -/
def Rejects (m : SubscribeMessage) (error : RequestErrorMessage) : Prop :=
  error = World.unsupportedFilter ∧ World.hasUnsupportedFilter m = true ∨
    error = World.noPublisher ∧ World.hasUnsupportedFilter m = false

/-- What a handler at this point has found out about the filters. -/
def SubscribePc.unsupported : SubscribePc → Option Bool
  | .start | .returned => none
  | .rejectFilter => some true
  | _ => some false

/-- The REQUEST_ERROR that the handler is about to write. -/
def SubscribeTask.rejection (t : SubscribeTask) : RequestErrorMessage :=
  if t.pc = .rejectFilter then World.unsupportedFilter else World.noPublisher

/-- A handler that rejects is where it has a reason to, and returns. -/
structure SubscribeTask.Rejected (t : SubscribeTask) : Prop where
  filters : ∀ b, t.pc.unsupported = some b → World.hasUnsupportedFilter t.message = b
  accepted : t.subscribeOk.isSome = true → World.hasUnsupportedFilter t.message = false
  errors : ∀ error, Response.requestError error ∈ t.written →
    t.pc = .returned ∧ t.subscribeOk = none ∧ Rejects t.message error

def AllRejected (w : World) : Prop :=
  ∀ (j : RequestId) (t : SubscribeTask), w.task j = some t → t.Rejected

theorem SubscribeStep.filters {w w' : World} {k : RequestId} {t t' : SubscribeTask} {input : Input}
    (h : SubscribeStep w k t input w') (ht : w.task k = some t) (ht' : w'.task k = some t')
    (hold : ∀ b, t.pc.unsupported = some b → World.hasUnsupportedFilter t.message = b) {b : Bool}
    (hb : t'.pc.unsupported = some b) : World.hasUnsupportedFilter t'.message = b := by
  have stay (f : SubscribeTask → SubscribeTask) := World.task_update_self f ht
  cases h with
  | unsupported hpc hfilter | named hpc hfilter htrack =>
    obtain rfl := Option.mem_unique (stay _) ht'
    obtain rfl := Option.some.inj hb
    exact hfilter
  | silent | notDone | notified =>
    obtain rfl := Option.mem_unique (stay _) ht'
    cases hb
  | reject | forwardLast =>
    obtain rfl := Option.mem_unique (World.task_update_self _ (stay _)) ht'
    cases hb
  | forwarded hpc =>
    obtain rfl := Option.mem_unique (World.task_update_self _ (stay _)) ht'
    simp only [SubscribeTask.wrote_message]
    exact hold b (by rw [hpc]; exact hb)
  | @notify hpc done hdone r rs htodo ok =>
    rw [World.task_write, stay] at ht'
    split at ht'
    · obtain rfl := Option.some.inj ht'
      simp only [SubscribeTask.wrote_pc, SubscribeTask.wrote_message] at hb ⊢
      exact hold b hb
    · obtain rfl := Option.some.inj ht'
      exact hold b hb
  | _ =>
    obtain rfl := Option.mem_unique (stay _) ht'
    exact hold b (by simp only [*]; exact hb)

/-- A handler that rejects writes its reason and returns. -/
theorem World.task_rejected {w w' : World} {k : RequestId} {ok : Bool} {t t' : SubscribeTask}
    (h : relay.step w (.subscribe k (.responded k ok)) = some w') (ht : w.task k = some t)
    (hpc : t.pc = .rejectFilter ∨ t.pc = .rejectNoPublisher) (ht' : w'.task k = some t') :
    t' = { t.wrote (.requestError t.rejection) ok with pc := .returned } := by
  have hstep : w' = (w.write k (.requestError t.rejection) ok).finish k := by
    change w.subscribe k (.responded k ok) = some w' at h
    rcases hpc with hpc | hpc
    · simp [World.subscribe, ht, hpc, SubscribeTask.rejection] at h ⊢
      exact h.symm
    · simp [World.subscribe, ht, hpc, SubscribeTask.rejection] at h ⊢
      exact h.symm
  have stay (f : SubscribeTask → SubscribeTask) := World.task_update_self f ht
  subst hstep
  exact Option.mem_unique ht' (World.task_update_self _ (stay _))

theorem SubscribeTask.Rejected.rejects {t : SubscribeTask} (h : t.Rejected)
    (hpc : t.pc = .rejectFilter ∨ t.pc = .rejectNoPublisher) : Rejects t.message t.rejection := by
  rcases hpc with hpc | hpc
  · exact .inl ⟨if_pos hpc, h.filters true (by rw [hpc]; rfl)⟩
  · exact .inr ⟨if_neg (by simp [hpc]), h.filters false (by rw [hpc]; rfl)⟩

/-- A handler that has a SUBSCRIBE_OK has found nothing wrong with the filters. -/
theorem Step.accepted {w w' : World} {l : Label} (h : Step w l w') {j : RequestId}
    {t t' : SubscribeTask} (ht : w.task j = some t) (ht' : w'.task j = some t')
    (hold : t.Rejected) (hsome : t'.subscribeOk.isSome = true) :
    World.hasUnsupportedFilter t'.message = false := by
  have hj := h.task j
  rw [ht, ht'] at hj
  cases hj with
  | kept hagree =>
    rw [hagree.message]
    exact hold.accepted (hagree.subscribeOk ▸ hsome)
  | moved hl hagree hmove =>
    rw [hagree.message]
    rw [hagree.subscribeOk] at hsome
    cases hmove with
    | join hpc | answered hpc => exact hold.filters false (by rw [hpc]; rfl)
    | _ => exact hold.accepted hsome

/-- A task that has returned stays as it is, up to what others write to its subscriber. -/
theorem Step.returned {w w' : World} {l : Label} (h : Step w l w') {j : RequestId}
    {t t' : SubscribeTask} (ht : w.task j = some t) (ht' : w'.task j = some t')
    (hpc : t.pc = .returned) : Agree t t' := by
  have hj := h.task j
  rw [ht, ht'] at hj
  cases hj with
  | kept hagree => exact hagree
  | moved hl hagree hmove =>
    cases hmove with
    | leave hleft => exact absurd hpc hleft.1
    | early hpc' | search hpc' =>
      rw [hpc] at hpc'
      cases hpc'
    | _ hpc' =>
      rw [hpc] at hpc'
      cases hpc'

theorem AllRejected.step {w w' : World} {l : Label} (h : AllRejected w) (hformed : Formed w)
    (hstep : relay.step w l = some w') : AllRejected w' := by
  intro j t' ht'
  have hrelay := Step.of_step hstep
  rcases hrelay.before ht' with ⟨t, ht⟩ | ⟨session, message, rfl⟩
  · obtain ⟨hfilters, -, herrors⟩ := h j t ht
    refine ⟨?_, fun hsome => hrelay.accepted ht ht' (h j t ht) hsome, ?_⟩
    · intro b hb
      have hj := hrelay.task j
      rw [ht, ht'] at hj
      cases hj with
      | kept hagree =>
        rw [hagree.message]
        rw [hagree.pc] at hb
        exact hfilters b hb
      | moved hl =>
        subst hl
        cases hrelay with
        | subscribe ht₀ hs =>
          obtain rfl := Option.mem_unique ht ht₀
          exact hs.filters ht ht' hfilters hb
    · intro error hmem
      -- an error that was there was written when the task returned
      have old (hold : Response.requestError error ∈ t.written) :
          t'.pc = .returned ∧ t'.subscribeOk = none ∧ Rejects t'.message error := by
        obtain ⟨hpc, hok, hrejects⟩ := herrors error hold
        have hagree := hrelay.returned ht ht' hpc
        exact ⟨hagree.pc.trans hpc, hagree.subscribeOk.trans hok, hagree.message ▸ hrejects⟩
      rcases hrelay.writes ht ht' with hsame | ⟨k, u, input, responses, rfl, hu, hwrites, hwritten⟩
      · exact old (hsame ▸ hmem)
      · cases hwrites with
        | nothing => exact old (by simpa [hwritten] using hmem)
        | answered hj hpc hok => exact old (by simpa [hwritten] using hmem)
        | done hpc hdone htodo => exact old (by simpa [hwritten] using hmem)
        | rejected hj hpc =>
          subst hj
          obtain rfl := Option.mem_unique ht hu
          obtain rfl := World.task_rejected hstep ht hpc ht'
          rw [SubscribeTask.wrote_written, if_pos rfl, List.mem_append, List.mem_singleton] at hmem
          rcases hmem with hold | heq
          · exact old hold
          · obtain rfl := Response.requestError.inj heq
            refine ⟨rfl, (hformed j t ht).unanswered ?_, (h j t ht).rejects hpc⟩
            rcases hpc with hpc | hpc <;> rw [hpc] <;> rfl
  · refine ⟨fun b hb => ?_, nofun, fun error hmem => ?_⟩
    · cases hb
    · cases hmem

theorem allRejected_of_reachable {w : World} (h : relay.Reachable w) : AllRejected w := by
  refine h.induction (fun j t ht => absurd ht (World.not_task_new j)) ?_
  intro w l w' hw hrejected hstep
  exact hrejected.step (known_of_reachable hw).lifecycle.formed hstep

/-! ### Owners -/

/-- A SUBSCRIBE_OK that a request is answered with is that of a task for the same track. -/
def Owned (w : World) : Prop :=
  ∀ (j : RequestId) (t : SubscribeTask) (answer : Received SubscribeOkMessage),
    w.task j = some t → t.subscribeOk = some answer →
      ∃ owner, w.task answer.upstream = some owner ∧ owner.subscribeOk = some answer ∧
        owner.track = t.track

/-- Where a SUBSCRIBE_OK comes from: it was there, it is the task's own, or that of an entry. -/
theorem Step.okOrigin {w w' : World} {l : Label} (h : Step w l w') (hformed : Formed w)
    {j : RequestId} {t' : SubscribeTask} {answer : Received SubscribeOkMessage}
    (ht' : w'.task j = some t') (hok' : t'.subscribeOk = some answer) :
    (∃ t, w.task j = some t ∧ t.subscribeOk = some answer ∧ t'.track = t.track) ∨
      answer.upstream = j ∨ ∃ track sub, t'.track = some track ∧
        w.state.subscriptions.lookup track = some sub ∧ sub.subscribeOk = answer := by
  rcases h.before ht' with ⟨t, ht⟩ | ⟨session, message, rfl⟩
  · by_cases hok : t.subscribeOk = some answer
    · obtain ⟨t₁, ht₁, hkeeps⟩ := h.keeps hformed ht hok
      obtain rfl := Option.mem_unique ht' ht₁
      exact .inl ⟨t, ht, hok, hkeeps.track⟩
    · have hj := h.task j
      rw [ht, ht'] at hj
      cases hj with
      | kept hagree => exact absurd (hagree.subscribeOk.symm.trans hok') hok
      | moved hl hagree hmove =>
        rw [hagree.subscribeOk] at hok'
        rw [hagree.track]
        cases hmove with
        | answered hpc ok hinput =>
          obtain rfl := Option.some.inj hok'
          exact .inr (.inl rfl)
        | join hpc htrack hexisting =>
          exact .inr (.inr ⟨_, _, htrack, hexisting, Option.some.inj hok'⟩)
        | _ => exact absurd hok' hok
  · cases hok'

theorem Owned.step {w w' : World} {l : Label} (h : Owned w) (hlife : Lifecycle w)
    (hstep : Step w l w') : Owned w' := by
  intro j t' answer ht' hok'
  -- an owner stays one
  have owned {owner : SubscribeTask} (ho : w.task answer.upstream = some owner)
      (hok : owner.subscribeOk = some answer) (htrack : owner.track = t'.track) :
      ∃ owner', w'.task answer.upstream = some owner' ∧ owner'.subscribeOk = some answer ∧
        owner'.track = t'.track := by
    obtain ⟨owner', ho', hkeeps⟩ := hstep.keeps hlife.formed ho hok
    exact ⟨owner', ho', hkeeps.subscribeOk.trans hok, hkeeps.track.trans htrack⟩
  rcases hstep.okOrigin hlife.formed ht' hok' with
    ⟨t, ht, hok, htrack⟩ | rfl | ⟨track, sub, htrack, hsub, rfl⟩
  · obtain ⟨owner, ho, hown, hsame⟩ := h j t answer ht hok
    exact owned ho hown (hsame.trans htrack.symm)
  · exact ⟨t', ht', hok', rfl⟩
  · obtain ⟨-, owner, session, ho, hsame, -, hown⟩ := hlife.upstreams.owner track sub hsub
    exact owned ho hown (hsame.trans htrack.symm)

theorem owned_of_reachable {w : World} (h : relay.Reachable w) : Owned w := by
  refine h.induction (fun j t _ ht => absurd ht (World.not_task_new j)) ?_
  intro w l w' hw howned hstep
  exact howned.step (known_of_reachable hw).lifecycle (.of_step hstep)

/-! ### Encoded answers -/

/-- A SUBSCRIBE_OK that has been written, or that a handler awaits the end of, can be encoded. -/
structure SubscribeTask.Encodes (t : SubscribeTask) : Prop where
  written : ∀ answer, Response.subscribeOk answer ∈ t.written → answer.message.encode.isOk = true
  awaits : t.pc = .awaitDone ∨ t.publishDone.isSome = true →
    ∀ answer ∈ t.subscribeOk, answer.message.encode.isOk = true

def AllEncode (w : World) : Prop :=
  ∀ (j : RequestId) (t : SubscribeTask), w.task j = some t → t.Encodes

theorem AllEncode.step_awaits {w w' : World} {l : Label} (h : AllEncode w) (hformed : Formed w)
    (hstep : Step w l w') {j : RequestId} {t t' : SubscribeTask} (ht : w.task j = some t)
    (ht' : w'.task j = some t') (hends : t'.pc = .awaitDone ∨ t'.publishDone.isSome = true)
    (answer : Received SubscribeOkMessage) (hanswer : answer ∈ t'.subscribeOk) :
    answer.message.encode.isOk = true := by
  have hold := (h j t ht).awaits
  -- in front of an answer there is no end
  have early (hpc : t.pc.ending = false) (hsome : t.publishDone.isSome = true) : False := by
    rw [(hformed j t ht).publishDone_none hpc] at hsome
    cases hsome
  have hj := hstep.task j
  rw [ht, ht'] at hj
  cases hj with
  | kept hagree =>
    rw [hagree.pc, hagree.publishDone] at hends
    exact hold hends answer (hagree.subscribeOk ▸ hanswer)
  | moved hl hagree hmove =>
    rw [hagree.pc, hagree.publishDone] at hends
    rw [hagree.subscribeOk] at hanswer
    cases hmove with
    | early hpc hpc' | search hpc hpc' =>
      rcases hends with rfl | hsome
      · cases hpc'
      · exact hold (.inr hsome) answer hanswer
    | join hpc | answered hpc =>
      rcases hends with heq | hsome
      · cases heq
      · exact (early (by rw [hpc]; rfl) hsome).elim
    | forwarded hpc hencode => exact hencode answer hanswer
    | done hpc => exact hold (.inl hpc) answer hanswer
    | notify hpc => exact hold hends answer hanswer
    | _ =>
      rcases hends with heq | hsome
      · cases heq
      · exact hold (.inr hsome) answer hanswer

theorem AllEncode.step {w w' : World} {l : Label} (h : AllEncode w) (hformed : Formed w)
    (hstep : Step w l w') : AllEncode w' := by
  intro j t' ht'
  rcases hstep.before ht' with ⟨t, ht⟩ | ⟨session, message, rfl⟩
  · refine ⟨fun answer hmem => ?_, h.step_awaits hformed hstep ht ht'⟩
    rcases hstep.writes ht ht' with hsame | ⟨k, u, input, responses, -, hu, hwrites, hwritten⟩
    · exact (h j t ht).written answer (hsame ▸ hmem)
    · rw [hwritten, List.mem_append] at hmem
      rcases hmem with hmem | hmem
      · exact (h j t ht).written answer hmem
      · cases hwrites with
        | nothing => cases hmem
        | rejected hr hpc error => simp at hmem
        | done hpc hdone htodo => simp at hmem
        | answered hr hpc hok hencode =>
          obtain rfl := Response.subscribeOk.inj (List.mem_singleton.mp hmem)
          exact hencode
  · exact ⟨nofun, fun _ answer hanswer => nomatch hanswer⟩

theorem allEncode_of_reachable {w : World} (h : relay.Reachable w) : AllEncode w := by
  refine h.induction (fun j t ht => absurd ht (World.not_task_new j)) ?_
  intro w l w' hw hencode hstep
  exact hencode.step (known_of_reachable hw).lifecycle.formed (.of_step hstep)

/-! ### One answer and one end -/

/-- No request is answered twice. -/
def OneAnswerEach (w : World) : Prop :=
  ∀ (j : RequestId) (t : SubscribeTask), w.task j = some t →
    t.answers ≤ 1 ∧ (t.pc.pending = true → t.answers = 0)

theorem Writes.length_le {w : World} {k j : RequestId} {t : SubscribeTask} {input : Input}
    {responses : List Response} (h : Writes w k j t input responses) : responses.length ≤ 1 := by
  cases h <;> simp

theorem OneAnswerEach.step {w w' : World} {l : Label} (h : OneAnswerEach w)
    (hstep : Step w l w') : OneAnswerEach w' := by
  intro j t' ht'
  have early : NoEarlyAnswer j w' :=
    NoEarlyAnswer.step (fun _ ht hpc => (h j _ ht).2 hpc) hstep
  refine ⟨?_, early t' ht'⟩
  rcases hstep.answers ht' with ⟨-, hzero⟩ | ⟨t, ht, ⟨-, hsame⟩ | ⟨input, rfl, hanswer⟩⟩
  · exact hzero ▸ Nat.zero_le 1
  · exact hsame ▸ (h j t ht).1
  · -- before its answer the task has none, and a step writes one message at most
    have first (hpc : t.pc.pending = true) : t'.answers ≤ 1 := by
      have hzero := (h j t ht).2 hpc
      rcases hstep.writes ht ht' with hsame | ⟨k, u, i, responses, -, -, hwrites, hwritten⟩
      · rw [SubscribeTask.answers, hsame]
        exact (h j t ht).1
      · rw [SubscribeTask.answers] at hzero ⊢
        rw [hwritten, List.countP_append, hzero, Nat.zero_add]
        exact List.countP_le_length.trans hwrites.length_le
    cases hanswer with
    | pending hpc | answered hpc | silent hpc | failed hpc => exact first hpc
    | after hpc hpc' hleft hsame => exact hsame ▸ (h j t ht).1

theorem oneAnswerEach_of_reachable {w : World} (h : relay.Reachable w) : OneAnswerEach w :=
  h.invariant (fun j _ ht => absurd ht (World.not_task_new j)) fun _ _ _ hw hstep =>
    hw.step (.of_step hstep)

/-! ### The whole stream -/

/-- The message that the relay writes. -/
def Response.message : Response → RequestMessage
  | .subscribeOk ok => .subscribeOk ok.message
  | .requestError error => .requestError error
  | .publishDone done => .publishDone done.message

/-- What it puts on the stream. -/
def Response.frame (response : Response) : Bytes :=
  match response.message.encode with
  | .ok frame => frame
  | .err _ | .panic _ => []

theorem Response.encode_frame (response : Response) (h : response.message.WithinLimits) :
    response.message.encode = .ok response.frame := by
  obtain ⟨frame, hframe⟩ := h.exists_encode
  rw [Response.frame, hframe]

/-- What has come of a request stream, to which no write has failed. -/
def SubscribeTask.Carries (t : SubscribeTask) (s : ByteStream) : Prop :=
  s.bytes <+: t.written.flatMap Response.frame

/-- Every message on a request stream is an answer or an end. -/
theorem length_eq_answers_add_dones (written : List Response) :
    written.length = written.countP Response.isAnswer + written.countP Response.isDone := by
  induction written with
  | nil => rfl
  | cons response written ih =>
    rw [List.length_cons, ih, List.countP_cons, List.countP_cons]
    cases response <;> simp [Response.isAnswer, Response.isDone] <;> omega

/-- The SUBSCRIBE_OK is that of an owner of the task's track, and can be written to the task. -/
structure SubscribeTask.OkFrom (w : World) (t : SubscribeTask)
    (answer : Received SubscribeOkMessage) (owner : SubscribeTask) : Prop where
  task : w.task answer.upstream = some owner
  own : owner.subscribeOk = some answer
  track : owner.track = t.track
  filters : World.hasUnsupportedFilter t.message = false
  encodes : answer.message.encode.isOk = true

/-- What has been written on a request stream: nothing, a rejection, or the SUBSCRIBE_OK of an owner
with at most the PUBLISH_DONE of the same owner behind it. -/
inductive SubscribeTask.Heard (w : World) (t : SubscribeTask) : List Response → Prop
  | nothing : Heard w t []
  | rejected {error : RequestErrorMessage} (h : Rejects t.message error) :
    Heard w t [.requestError error]
  | accepted {answer : Received SubscribeOkMessage} {owner : SubscribeTask}
      (hok : t.OkFrom w answer owner) : Heard w t [.subscribeOk answer]
  | ended {answer : Received SubscribeOkMessage} {done : Received PublishDoneMessage}
      {owner : SubscribeTask} (hok : t.OkFrom w answer owner)
      (hdone : owner.publishDone = some done) :
    Heard w t [.subscribeOk answer, .publishDone done]

/-- What is known of all request streams in a run whose PUBLISH_DONEs go to requests that are
answered, by the list of the own upstream subscription. -/
structure Spoken (w : World) : Prop where
  inOrder : InOrder w
  notified : Notified w
  okWritten : OkWritten w
  rejected : AllRejected w
  owned : Owned w
  encodes : AllEncode w
  once : OneAnswerEach w

namespace Spoken

variable {w : World} {r : RequestId} {t : SubscribeTask}

/-- Nobody is told of the end of what was rejected. -/
theorem not_both (h : Spoken w) (ht : w.task r = some t) {error : RequestErrorMessage}
    {done : Received PublishDoneMessage} (herror : Response.requestError error ∈ t.written)
    (hdone : Response.publishDone done ∈ t.written) : False := by
  obtain ⟨-, hnone, -⟩ := (h.rejected r t ht).errors error herror
  have hsome := ((h.inOrder.endLast r t ht).past (List.any_eq_true.mpr ⟨_, hdone, rfl⟩)).2
  rw [hnone] at hsome
  cases hsome

theorem owner_of_ok (h : Spoken w) (ht : w.task r = some t) {answer : Received SubscribeOkMessage}
    (hmem : Response.subscribeOk answer ∈ t.written) : ∃ owner, t.OkFrom w answer owner := by
  have hok := h.okWritten r t answer ht hmem
  obtain ⟨owner, ho, hown, htrack⟩ := h.owned r t answer ht hok
  exact ⟨owner, ho, hown, htrack, (h.rejected r t ht).accepted (by rw [hok]; rfl),
    (h.encodes r t ht).written answer hmem⟩

/-- The PUBLISH_DONE on a stream is that of the owner of the SUBSCRIBE_OK. -/
theorem done_of_ok (h : Spoken w) (ht : w.task r = some t) {answer : Received SubscribeOkMessage}
    {done : Received PublishDoneMessage} {owner : SubscribeTask}
    (hok : Response.subscribeOk answer ∈ t.written) (hdone : Response.publishDone done ∈ t.written)
    (ho : w.task answer.upstream = some owner) : owner.publishDone = some done := by
  obtain ⟨answer', owner', hok', ho', -, hdone', -⟩ := h.notified.told r t done ht hdone
  obtain rfl := Option.mem_unique (h.okWritten r t answer ht hok) hok'
  obtain rfl := Option.mem_unique ho ho'
  exact hdone'

/-- A request stream on which every write has ended well. -/
theorem heard (h : Spoken w) (ht : w.task r = some t) (hwrites : t.failedWrite = false) :
    t.Heard w t.written := by
  have hanswers := (h.once r t ht).1
  have hdones := h.notified.once r t ht
  have horder := (h.inOrder.endLast r t ht).order
  -- an end has an answer with it
  have hanswered (done : Received PublishDoneMessage) (hdone : .publishDone done ∈ t.written) :
      t.written.any Response.isOk = true := by
    obtain ⟨hpc, hsome⟩ :=
      (h.inOrder.endLast r t ht).past (List.any_eq_true.mpr ⟨_, hdone, rfl⟩)
    rcases h.inOrder.answered r t ht hpc hsome with hok | hfailed | ⟨answer, hok, hlost⟩
    · exact hok
    · rw [hwrites] at hfailed
      cases hfailed
    · -- the owner awaits the end only behind a SUBSCRIBE_OK that it has written
      obtain ⟨answer', owner, hok', ho, hown, howner, -⟩ := h.notified.told r t done ht hdone
      obtain rfl := Option.mem_unique hok hok'
      have hencode := (h.encodes _ owner ho).awaits (.inr (by rw [howner]; rfl)) answer hown
      rw [hencode] at hlost
      cases hlost
  rw [SubscribeTask.answers] at hanswers
  rw [SubscribeTask.dones] at hdones
  have herrors := (h.rejected r t ht).errors
  have howner (answer : Received SubscribeOkMessage) (hok : .subscribeOk answer ∈ t.written) :=
    h.owner_of_ok ht hok
  have hdone (answer : Received SubscribeOkMessage) (done : Received PublishDoneMessage)
    (owner : SubscribeTask) (hok : .subscribeOk answer ∈ t.written)
    (hdone : .publishDone done ∈ t.written) (ho : w.task answer.upstream = some owner) :=
    h.done_of_ok ht hok hdone ho
  have hboth (error : RequestErrorMessage) (done : Received PublishDoneMessage)
    (herror : .requestError error ∈ t.written) (hdone : .publishDone done ∈ t.written) :=
    h.not_both ht herror hdone
  generalize t.written = written at *
  rcases written with _ | ⟨a, _ | ⟨b, _ | ⟨c, rest⟩⟩⟩
  · exact .nothing
  · cases a with
    | requestError error => exact .rejected (herrors error (by simp)).2.2
    | subscribeOk answer =>
      obtain ⟨owner, hok⟩ := howner answer (by simp)
      exact .accepted hok
    | publishDone done => exact absurd (hanswered done (by simp)) (by simp [Response.isOk])
  · cases a with
    | subscribeOk answer =>
      cases b with
      | publishDone done =>
        obtain ⟨owner, hok⟩ := howner answer (by simp)
        exact .ended hok (hdone answer done owner (by simp) (by simp) hok.task)
      | _ => simp [List.countP_cons, Response.isAnswer] at hanswers
    | requestError error =>
      cases b with
      | publishDone done => exact (hboth error done (by simp) (by simp)).elim
      | _ => simp [List.countP_cons, Response.isAnswer] at hanswers
    | publishDone done =>
      cases b with
      | subscribeOk answer => simp [Response.isDone, Response.isOk] at horder
      | requestError error => exact (hboth error done (by simp) (by simp)).elim
      | publishDone _ => simp [List.countP_cons, Response.isDone] at hdones
  · have hlength := length_eq_answers_add_dones (a :: b :: c :: rest)
    simp only [List.length_cons] at hlength
    omega

end Spoken

end Moqt.Relay
