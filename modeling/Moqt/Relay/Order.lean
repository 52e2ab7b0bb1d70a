import Moqt.Relay.Done

/-! SUBSCRIBE_OK before PUBLISH_DONE.  A task is listed as a subscriber before it has forwarded its
SUBSCRIBE_OK, and the task that forwards PUBLISH_DONE goes by the list. -/

namespace Moqt.Relay

open Library Wire

/-! ### Listed requests -/

/-- The task is past the point where it is listed as a subscriber, if it is listed at all. -/
def SubscribePc.listed : SubscribePc → Bool
  | .forwardExisting | .forwardOk | .awaitDone | .fetchSubscribers | .notify | .returned => true
  | _ => false

/-- The task forwards a SUBSCRIBE_OK, or has done so. -/
def Answering (w : World) (r : RequestId) : Prop :=
  ∃ t, w.task r = some t ∧ t.pc.listed = true ∧ t.subscribeOk.isSome

theorem Move.listed {w : World} {k : RequestId} {t u : SubscribeTask} {input : Input}
    (h : Move w k t input u) (hpc : t.pc.listed = true) : u.pc.listed = true := by
  cases h with
  | early hpc' | search hpc' =>
    revert hpc hpc'
    cases t.pc <;> simp [SubscribePc.listed, SubscribePc.early, SubscribePc.searching]
  | lock hpc' | vacant hpc' | answered hpc' =>
    rw [hpc'] at hpc
    cases hpc
  | notify hpc' htodo => exact hpc
  | _ => rfl

theorem Answering.step {w w' : World} {l : Label} {r : RequestId} (h : Answering w r)
    (hformed : Formed w) (hstep : Step w l w') : Answering w' r := by
  obtain ⟨t, ht, hpc, hsome⟩ := h
  obtain ⟨answer, hok⟩ := Option.isSome_iff_exists.mp hsome
  obtain ⟨t', ht', hkeeps⟩ := hstep.keeps hformed ht hok
  refine ⟨t', ht', ?_, by rw [hkeeps.subscribeOk, hok]; rfl⟩
  have hr := hstep.task r
  rw [ht, ht'] at hr
  cases hr with
  | kept hagree =>
    rw [hagree.pc]
    exact hpc
  | moved hl hagree hmove =>
    rw [hagree.pc]
    exact hmove.listed hpc

/-- Every request in the map, and every one on the list of a task that notifies, is answered with a
SUBSCRIBE_OK or about to be. -/
structure Listed (w : World) : Prop where
  entries : ∀ (track : FullTrackName) (sub : Subscription),
    w.state.subscriptions.lookup track = some sub → ∀ e ∈ sub.subscribers, Answering w e.request
  lists : ∀ (k : RequestId) (owner : SubscribeTask), w.task k = some owner →
    ∀ r ∈ owner.subsToNotify, Answering w r

theorem Listed.step_entries {w w' : World} {l : Label} (h : Listed w) (hlife : Lifecycle w)
    (hstep : Step w l w') {track : FullTrackName} {sub' : Subscription}
    (hsub' : w'.state.subscriptions.lookup track = some sub') {e : SubscriberEntry}
    (he : e ∈ sub'.subscribers) : Answering w' e.request := by
  cases hstep.subOrigin hlife.locks hsub' with
  | old hsub _ hsublist =>
    exact (h.entries track _ hsub e (hsublist.subset he)).step hlife.formed hstep
  | joined hl ht hpc htrack hsub ht' heq =>
    subst heq
    rcases List.mem_append.mp he with he | he
    · exact (h.entries track _ hsub e he).step hlife.formed hstep
    · obtain rfl := List.mem_singleton.mp he
      exact ⟨_, ht', rfl, rfl⟩
  | recorded hl ht hpc htrack hpublisher hanswer ht' heq =>
    subst heq
    obtain rfl := List.mem_singleton.mp he
    refine ⟨_, ht', rfl, ?_⟩
    rw [hanswer]
    rfl

theorem Listed.step_lists {w w' : World} {l : Label} (h : Listed w) (hlife : Lifecycle w)
    (hstep : Step w l w') {k : RequestId} {owner' : SubscribeTask} (ho' : w'.task k = some owner')
    {r : RequestId} (hr : r ∈ owner'.subsToNotify) : Answering w' r := by
  suffices hbefore : Answering w r from hbefore.step hlife.formed hstep
  rcases hstep.before ho' with ⟨owner, ho⟩ | ⟨session, message, rfl⟩
  · have hk := hstep.task k
    rw [ho, ho'] at hk
    cases hk with
    | kept hagree =>
      rw [hagree.subsToNotify] at hr
      exact h.lists k owner ho r hr
    | moved hl hagree hmove =>
      rw [hagree.subsToNotify] at hr
      cases hmove with
      | fetch hpc htrack =>
        obtain ⟨sub, hsub, e, he, rfl⟩ := RelayState.mem_findSubscriberRequests.mp hr
        exact h.entries _ sub hsub e he
      | notify hpc htodo =>
        refine h.lists k owner ho r ?_
        rw [htodo]
        exact List.mem_cons_of_mem _ hr
      | _ => exact h.lists k owner ho r hr
  · cases hr

theorem Listed.new : Listed .new where
  entries _ _ hsub := absurd hsub World.not_lookup_new
  lists k _ ho := absurd ho (World.not_task_new k)

theorem Listed.step {w w' : World} {l : Label} (h : Listed w) (hlife : Lifecycle w)
    (hstep : Step w l w') : Listed w' where
  entries _ _ hsub' _ he := h.step_entries hlife hstep hsub' he
  lists _ _ ho' _ hr := h.step_lists hlife hstep ho' hr

/-! ### The SUBSCRIBE_OK of a request -/

def Response.isOk : Response → Bool
  | .subscribeOk _ => true
  | .requestError _ | .publishDone _ => false

/-- A write to the request has failed, or its SUBSCRIBE_OK cannot be encoded. -/
def SubscribeTask.Lost (t : SubscribeTask) : Prop :=
  t.failedWrite = true ∨ ∃ answer ∈ t.subscribeOk, answer.message.encode.isOk = false

theorem SubscribeTask.wrote_failedWrite (t : SubscribeTask) (response : Response) (ok : Bool) :
    (t.wrote response ok).failedWrite = (t.failedWrite || !ok) := by
  cases ok <;> simp [SubscribeTask.wrote]

/-- Past its answer, a task with a SUBSCRIBE_OK has written it, or failed to. -/
def SubscribeTask.Answered (t : SubscribeTask) : Prop :=
  t.pc.pending = false → t.subscribeOk.isSome → (t.written.any Response.isOk = true) ∨ t.Lost

theorem SubscribeTask.Answered.of_eq {t t' : SubscribeTask} (h : t.Answered)
    (hpc : t'.pc.pending = false → t.pc.pending = false) (hok : t'.subscribeOk = t.subscribeOk)
    (hwritten : t'.written = t.written) (hfailed : t'.failedWrite = t.failedWrite) :
    t'.Answered := by
  intro hpending hsome
  rw [hok] at hsome
  rw [SubscribeTask.Lost, hwritten, hfailed, hok]
  exact h (hpc hpending) hsome

theorem SubscribeTask.Answered.of_pending {t : SubscribeTask} (h : t.pc.pending = true) :
    t.Answered := by
  intro hpending
  rw [h] at hpending
  cases hpending

theorem SubscribeTask.Answered.wrote {t : SubscribeTask} (h : t.Answered) (response : Response)
    (ok : Bool) : (t.wrote response ok).Answered := by
  intro hpending hsome
  rw [SubscribeTask.wrote_pc] at hpending
  rw [SubscribeTask.wrote_subscribeOk] at hsome
  rcases h hpending hsome with hwritten | hfailed | hencode
  · left
    rw [SubscribeTask.wrote_written, List.any_append, hwritten, Bool.true_or]
  · right
    left
    rw [SubscribeTask.wrote_failedWrite, hfailed, Bool.true_or]
  · right
    right
    rw [SubscribeTask.wrote_subscribeOk]
    exact hencode

/-- A SUBSCRIBE_OK that the handler has tried to write is written, or a write has failed. -/
theorem SubscribeTask.Answered.forwarded {t t' : SubscribeTask}
    {answer : Received SubscribeOkMessage} {ok : Bool}
    (hwritten : t'.written = (t.wrote (.subscribeOk answer) ok).written)
    (hfailed : t'.failedWrite = (t.wrote (.subscribeOk answer) ok).failedWrite) :
    t'.Answered := by
  intro _ _
  cases ok with
  | true =>
    left
    rw [hwritten, SubscribeTask.wrote_written, List.any_append]
    simp [Response.isOk]
  | false =>
    right
    left
    rw [hfailed, SubscribeTask.wrote_failedWrite]
    simp

/-- A handler that leaves by `?` with a SUBSCRIBE_OK could not encode it. -/
theorem SilentExit.lost {k : RequestId} {t : SubscribeTask} {input : Input} (h : SilentExit t input)
    (hwf : t.Wf k) {answer : Received SubscribeOkMessage} (hok : t.subscribeOk = some answer) :
    answer.message.encode.isOk = false := by
  have unanswered (hpc : t.pc.unanswered = true) : False := by
    rw [hwf.unanswered hpc] at hok
    cases hok
  unfold SilentExit at h
  split at h
  case h_5 | h_6 => exact h answer hok
  case h_7 => exact h.elim
  all_goals exact (unanswered (by simp only [*]; rfl)).elim

/-- Every task that is past its answer has written its SUBSCRIBE_OK, if it has one, or failed to. -/
def AllAnswered (w : World) : Prop :=
  ∀ (j : RequestId) (t : SubscribeTask), w.task j = some t → t.Answered

theorem AllAnswered.update {w : World} (h : AllAnswered w) {k : RequestId}
    {f : SubscribeTask → SubscribeTask} (hf : ∀ t, w.task k = some t → (f t).Answered) :
    AllAnswered (w.update k f) :=
  World.forall_task_update (P := fun _ t => t.Answered) h hf

theorem SubscribeStep.allAnswered {w w' : World} {k : RequestId} {t : SubscribeTask}
    {input : Input} (h : SubscribeStep w k t input w') (ht : w.task k = some t) (hwf : t.Wf k)
    (hall : AllAnswered w) : AllAnswered w' := by
  have stay (f : SubscribeTask → SubscribeTask) := World.task_update_self f ht
  -- at the task's own steps past its answer nothing is written on its stream
  have after (f : SubscribeTask → SubscribeTask) (hpc : t.pc.pending = false)
      (hok : (f t).subscribeOk = t.subscribeOk) (hwritten : (f t).written = t.written)
      (hfailed : (f t).failedWrite = t.failedWrite) : AllAnswered (w.update k f) := by
    refine hall.update fun t₁ ht₁ => ?_
    obtain rfl := Option.mem_unique ht ht₁
    exact (hall k t ht).of_eq (fun _ => hpc) hok hwritten hfailed
  cases h with
  | silent hpc h =>
    refine hall.update fun t₁ ht₁ _ hsome => ?_
    obtain rfl := Option.mem_unique ht ht₁
    obtain ⟨answer, hok⟩ := Option.isSome_iff_exists.mp hsome
    exact .inr (.inr ⟨answer, hok, h.lost hwf hok⟩)
  | reject hpc error ok =>
    refine AllAnswered.update (w := w.write k _ ok) ?_ fun t₁ ht₁ _ hsome => ?_
    · exact hall.update fun t₁ ht₁ => (hall k t₁ ht₁).wrote _ ok
    · -- it has no SUBSCRIBE_OK
      obtain rfl := Option.mem_unique (stay _) ht₁
      have hnone : t.subscribeOk = none :=
        hwf.unanswered (by rcases hpc with hpc | hpc <;> rw [hpc] <;> rfl)
      simp [hnone] at hsome
  | forwardLast ok hpc hanswer hencode =>
    refine AllAnswered.update (w := w.write k _ ok) ?_ fun t₁ ht₁ => ?_
    · exact hall.update fun t₁ ht₁ => (hall k t₁ ht₁).wrote _ ok
    · obtain rfl := Option.mem_unique (stay _) ht₁
      exact .forwarded rfl rfl
  | forwarded hpc hanswer hencode =>
    refine AllAnswered.update (w := w.write k _ true) ?_ fun t₁ ht₁ => ?_
    · exact hall.update fun t₁ ht₁ => (hall k t₁ ht₁).wrote _ true
    · obtain rfl := Option.mem_unique (stay _) ht₁
      exact .forwarded rfl rfl
  | done hpc done => exact after _ (by rw [hpc]; rfl) rfl rfl rfl
  | notDone hpc hmessage => exact after _ (by rw [hpc]; rfl) rfl rfl rfl
  | fetch hpc htrack hfree => exact after _ (by rw [hpc]; rfl) rfl rfl rfl
  | @notify hpc done hdone r rs htodo ok =>
    have hafter := after (fun t => { t with subsToNotify := t.subsToNotify.tail })
      (by rw [hpc]; rfl) rfl rfl rfl
    exact hafter.update fun t₁ ht₁ => (hafter r t₁ ht₁).wrote _ ok
  | notified hpc htodo => exact after _ (by rw [hpc]; rfl) rfl rfl rfl
  | _ => exact hall.update fun _ _ => .of_pending rfl

theorem AllAnswered.step {w w' : World} {l : Label} (h : AllAnswered w) (hformed : Formed w)
    (hstep : Step w l w') : AllAnswered w' := by
  cases hstep with
  | event hconn hstatus event =>
    cases event with
    | subscribe message =>
      intro j t ht
      rcases World.task_spawn.mp ht with hold | ⟨-, rfl⟩
      · exact h j t hold
      · exact .of_pending rfl
    | _ => exact h
  | subscribe ht hs => exact hs.allAnswered ht (hformed _ _ ht) h
  | dataStream ht hs =>
    rw [hs.frame]
    exact h
  | _ => exact h

/-! ### The end marker comes last -/

/-- A PUBLISH_DONE is not written to a request whose handler is in front of
`forward_subscribe_ok`. -/
def AnsweredFirst (w : World) : Label → Prop
  | .subscribe k (.responded r true) => ∀ owner ∈ w.task k, owner.pc = .notify →
      ∀ t ∈ w.task r, t.pc ≠ .forwardExisting ∧ t.pc ≠ .forwardOk
  | _ => True

instance (w : World) (l : Label) : Decidable (AnsweredFirst w l) :=
  match l with
  | .subscribe k (.responded r true) =>
    inferInstanceAs (Decidable (∀ owner ∈ w.task k, owner.pc = .notify →
      ∀ t ∈ w.task r, t.pc ≠ .forwardExisting ∧ t.pc ≠ .forwardOk))
  | .subscribe _ (.responded _ false) | .subscribe _ .proceed | .subscribe _ (.opened _)
  | .subscribe _ (.wrote _) | .subscribe _ (.response _) | .subscribe _ (.object _) | .connect
  | .event _ _ | .eventError _ | .removeSession _ | .publishNamespace _ _ | .dataStream _ _ =>
    isTrue trivial

/-- On the request stream no SUBSCRIBE_OK comes after a PUBLISH_DONE; and one comes before it,
unless writing it has failed. -/
structure SubscribeTask.ResponseFirst (t : SubscribeTask) : Prop where
  order : t.written.Pairwise fun a b => a.isDone = true → b.isOk = false
  response : t.written.any Response.isDone = true → t.written.any Response.isOk = true ∨ t.Lost

/-- A request that has been told of the end is past its answer. -/
structure SubscribeTask.EndLast (t : SubscribeTask) : Prop where
  order : t.written.Pairwise fun a b => a.isDone = true → b.isOk = false
  past : t.written.any Response.isDone = true → t.pc.pending = false ∧ t.subscribeOk.isSome

theorem Move.pending {w : World} {k : RequestId} {t u : SubscribeTask} {input : Input}
    (h : Move w k t input u) (hpc : t.pc.pending = false) : u.pc.pending = false := by
  cases h with
  | early hpc' | search hpc' =>
    revert hpc hpc'
    cases t.pc <;> simp [SubscribePc.pending, SubscribePc.early, SubscribePc.searching]
  | lock hpc' | join hpc' | vacant hpc' | answered hpc' | record hpc' | forwarded hpc' =>
    rw [hpc'] at hpc
    cases hpc
  | notify hpc' htodo => exact hpc
  | _ => rfl

/-- A task that is past its answer stays so. -/
theorem Step.past {w w' : World} {l : Label} (h : Step w l w') (hformed : Formed w)
    {r : RequestId} {t t' : SubscribeTask} (ht : w.task r = some t) (ht' : w'.task r = some t')
    (hpast : t.pc.pending = false ∧ t.subscribeOk.isSome) :
    t'.pc.pending = false ∧ t'.subscribeOk.isSome := by
  obtain ⟨hpc, hsome⟩ := hpast
  obtain ⟨answer, hok⟩ := Option.isSome_iff_exists.mp hsome
  obtain ⟨t₁, ht₁, hkeeps⟩ := h.keeps hformed ht hok
  obtain rfl := Option.mem_unique ht' ht₁
  refine ⟨?_, by rw [hkeeps.subscribeOk, hsome]⟩
  have hr := h.task r
  rw [ht, ht'] at hr
  cases hr with
  | kept hagree =>
    rw [hagree.pc]
    exact hpc
  | moved hl hagree hmove =>
    rw [hagree.pc]
    exact hmove.pending hpc

theorem SubscribePc.not_pending_of_listed {pc : SubscribePc} (h : pc.listed = true)
    (hne : pc ≠ .forwardExisting ∧ pc ≠ .forwardOk) : pc.pending = false := by
  revert h hne
  cases pc <;> simp [SubscribePc.listed, SubscribePc.pending]

/-- A request that is told of the end is past its answer. -/
theorem AnsweredFirst.past {w : World} {k r : RequestId} {owner t : SubscribeTask}
    (h : AnsweredFirst w (.subscribe k (.responded r true))) (hlisted : Listed w)
    (ho : w.task k = some owner) (hpc : owner.pc = .notify) {rs : List RequestId}
    (htodo : owner.subsToNotify = r :: rs) (ht : w.task r = some t) :
    t.pc.pending = false ∧ t.subscribeOk.isSome := by
  obtain ⟨t₁, ht₁, hpc₁, hsome⟩ := hlisted.lists k owner ho r (by simp [htodo])
  obtain rfl := Option.mem_unique ht ht₁
  exact ⟨SubscribePc.not_pending_of_listed hpc₁ (h owner ho hpc t ht), hsome⟩

theorem SubscribeTask.EndLast.step {w w' : World} {l : Label} {r : RequestId}
    {t t' : SubscribeTask} (h : t.EndLast) (hformed : Formed w) (hlisted : Listed w)
    (hfirst : AnsweredFirst w l) (hstep : Step w l w') (ht : w.task r = some t)
    (ht' : w'.task r = some t') : t'.EndLast := by
  have stays := hstep.past hformed ht ht'
  rcases hstep.writes ht ht' with hsame | ⟨k, owner, input, responses, rfl, ho, hwrites, hwritten⟩
  · constructor
    · rw [hsame]
      exact h.order
    · rw [hsame]
      exact fun hdone => stays (h.past hdone)
  · constructor
    · rw [hwritten, List.pairwise_append]
      refine ⟨h.order, ?_, fun a ha b hb hdone => ?_⟩
      · cases hwrites <;> simp
      · cases hwrites with
        | nothing => cases hb
        | rejected hr hpc error =>
          obtain rfl := List.mem_singleton.mp hb
          rfl
        | done hpc hdone htodo =>
          obtain rfl := List.mem_singleton.mp hb
          rfl
        | answered hr hpc hok =>
          -- its handler has not answered it yet, so that it has not been told of the end
          subst hr
          obtain rfl := Option.mem_unique ht ho
          have hpast := (h.past (List.any_eq_true.mpr ⟨a, ha, hdone⟩)).1
          rcases hpc with hpc | hpc <;> rw [hpc] at hpast <;> cases hpast
    · rw [hwritten, List.any_append, Bool.or_eq_true]
      rintro (hdone | hdone)
      · exact stays (h.past hdone)
      · cases hwrites with
        | done hpc hsome htodo => exact stays (hfirst.past hlisted ho hpc htodo ht)
        | _ => cases hdone

/-- What a run keeps in which every PUBLISH_DONE waits for the answer. -/
structure InOrder (w : World) : Prop where
  lifecycle : Lifecycle w
  listed : Listed w
  answered : AllAnswered w
  endLast : ∀ (r : RequestId) (t : SubscribeTask), w.task r = some t → t.EndLast

theorem InOrder.new : InOrder .new where
  lifecycle := .new
  listed := .new
  answered r _ ht := absurd ht (World.not_task_new r)
  endLast r _ ht := absurd ht (World.not_task_new r)

theorem InOrder.step {w w' : World} {l : Label} (h : InOrder w) (hfirst : AnsweredFirst w l)
    (hstep : Step w l w') : InOrder w' where
  lifecycle := h.lifecycle.step hstep
  listed := h.listed.step h.lifecycle hstep
  answered := h.answered.step h.lifecycle.formed hstep
  endLast r t' ht' := by
    rcases hstep.before ht' with ⟨t, ht⟩ | ⟨session, message, rfl⟩
    · exact (h.endLast r t ht).step h.lifecycle.formed h.listed hfirst hstep ht ht'
    · exact ⟨.nil, nofun⟩

/-- On every request stream, the response precedes the end marker. -/
def ResponsesFirst (w : World) : Prop :=
  ∀ (r : RequestId) (t : SubscribeTask), w.task r = some t → t.ResponseFirst

/-- PUBLISH_DONE comes after SUBSCRIBE_OK in any run in which it is not written to a request whose
handler is in front of `forward_subscribe_ok`. -/
theorem responsesFirst_of_answeredFirst (ls : List Label)
    (h : relay.Meets AnsweredFirst .new ls) : ResponsesFirst (relay.run .new ls) := by
  have horder : InOrder (relay.run .new ls) :=
    Machine.invariant .new (fun _ _ _ hw hl hstep => hw.step hl (.of_step hstep)) h
  intro r t ht
  have hend := horder.endLast r t ht
  refine ⟨hend.order, fun hdone => ?_⟩
  obtain ⟨hpc, hsome⟩ := hend.past hdone
  exact horder.answered r t ht hpc hsome

/-- A second subscriber joins the subscription of the first; the publisher ends it before the
second one's handler has forwarded SUBSCRIBE_OK. -/
def endedWhileJoining : List Label :=
  [Label.connect, .connect, .connect] ++ Schedule.announce 0 0 ⟨[[1]]⟩ ++
    Schedule.ask 1 0 ⟨[[1]]⟩ [0x61] ++ Schedule.fetchUpstream 0 7 ++
    [Label.subscribe 0 (.responded 0 true)] ++ Schedule.ask 2 1 ⟨[[1]]⟩ [0x61] ++
    Schedule.endTrack 0 ++ [Label.subscribe 0 (.responded 0 true), .subscribe 0 (.responded 1 true),
      .subscribe 1 (.responded 1 true)]

set_option maxRecDepth 4096 in
theorem not_responsesFirst_endedWhileJoining : ¬∀ ls, ResponsesFirst (relay.run .new ls) := by
  intro h
  have hwritten : ((relay.run .new endedWhileJoining).task 1).map SubscribeTask.written =
      some [.publishDone ⟨0, ⟨0, 0, ⟨[]⟩⟩⟩, .subscribeOk ⟨0, ⟨7, [], []⟩⟩] := by decide
  obtain ⟨t, ht, heq⟩ := Option.map_eq_some_iff.mp hwritten
  have horder := (h endedWhileJoining 1 t ht).order
  rw [heq] at horder
  exact absurd horder (by decide)

/-- The second subscriber is answered in time. -/
theorem responsesFirst_joinedInTime : ResponsesFirst (relay.run .new
    ([Label.connect, .connect, .connect] ++ Schedule.announce 0 0 ⟨[[1]]⟩ ++
      Schedule.ask 1 0 ⟨[[1]]⟩ [0x61] ++ Schedule.fetchUpstream 0 7 ++
      [Label.subscribe 0 (.responded 0 true)] ++ Schedule.ask 2 1 ⟨[[1]]⟩ [0x61] ++
      Schedule.endTrack 0 ++ [Label.subscribe 0 (.responded 0 true),
        .subscribe 1 (.responded 1 true), .subscribe 0 (.responded 1 true)])) :=
  responsesFirst_of_answeredFirst _ (by decide)

end Moqt.Relay
