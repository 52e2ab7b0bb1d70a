import Moqt.Relay.Response
import Moqt.Relay.Upstream

/-! PUBLISH_DONE on its way to the subscribers.  The task that has received it looks them up by the
name of the track; the entry that it finds may be that of another upstream subscription. -/

namespace Moqt.Relay

open Library Wire

/-- A task that comes to fetch the subscribers finds the entry of its own upstream subscription, or
none. -/
def FetchesOwn (w : World) : Label → Prop
  | .subscribe k _ => ∀ t ∈ w.task k, t.pc = .fetchSubscribers → ∀ track ∈ t.track,
      ∀ sub ∈ w.state.subscriptions.lookup track, sub.subscribeOk.upstream = k
  | _ => True

instance (w : World) (l : Label) : Decidable (FetchesOwn w l) :=
  match l with
  | .subscribe k _ => inferInstanceAs (Decidable (∀ t ∈ w.task k, t.pc = .fetchSubscribers →
      ∀ track ∈ t.track, ∀ sub ∈ w.state.subscriptions.lookup track, sub.subscribeOk.upstream = k))
  | .connect | .event _ _ | .eventError _ | .removeSession _ | .publishNamespace _ _
  | .dataStream _ _ => isTrue trivial

def Response.isDone : Response → Bool
  | .publishDone _ => true
  | .subscribeOk _ | .requestError _ => false

/-- The PUBLISH_DONEs that have been written. -/
def SubscribeTask.dones (t : SubscribeTask) : Nat := t.written.countP Response.isDone

/-- The PUBLISH_DONE on the stream of `r` is that of the upstream subscription which answered `r`;
its task has it behind it. -/
def Told (w : World) (r : RequestId) (t : SubscribeTask) (done : Received PublishDoneMessage) :
    Prop :=
  ∃ answer owner, t.subscribeOk = some answer ∧ w.task answer.upstream = some owner ∧
    owner.subscribeOk = some answer ∧ owner.publishDone = some done ∧
    owner.pc.fetched = true ∧ r ∉ owner.subsToNotify

/-- How far each PUBLISH_DONE has come. -/
structure Notified (w : World) : Prop where
  told : ∀ (r : RequestId) (t : SubscribeTask) (done : Received PublishDoneMessage),
    w.task r = some t → Response.publishDone done ∈ t.written → Told w r t done
  nodup : ∀ (k : RequestId) (owner : SubscribeTask), w.task k = some owner → owner.pc = .notify →
    owner.subsToNotify.Nodup
  pending : ∀ (k : RequestId) (owner : SubscribeTask), w.task k = some owner →
    owner.pc = .notify → ∀ r ∈ owner.subsToNotify,
      ∃ t, w.task r = some t ∧ t.subscribeOk = owner.subscribeOk
  once : ∀ (r : RequestId) (t : SubscribeTask), w.task r = some t → t.dones ≤ 1

/-- What has been told stays so. -/
theorem Told.step {w w' : World} {l : Label} {r : RequestId} {t t' : SubscribeTask}
    {done : Received PublishDoneMessage} (h : Told w r t done) (hformed : Formed w)
    (hstep : Step w l w') (ht : w.task r = some t) (ht' : w'.task r = some t') :
    Told w' r t' done := by
  obtain ⟨answer, owner, hok, ho, howner, hdone, hpc, htodo⟩ := h
  obtain ⟨t₁, ht₁, hkeeps⟩ := hstep.keeps hformed ht hok
  obtain rfl := Option.mem_unique ht' ht₁
  obtain ⟨owner', ho', hpc', hdone', hsublist⟩ := hstep.fetched ho hpc
  obtain ⟨o₁, ho₁, hkeeps'⟩ := hstep.keeps hformed ho howner
  obtain rfl := Option.mem_unique ho' ho₁
  exact ⟨answer, owner', hkeeps.subscribeOk.trans hok, ho', hkeeps'.subscribeOk.trans howner,
    hdone'.trans hdone, hpc', fun hr => htodo (hsublist.subset hr)⟩

/-- A task with `r` on its list has told `r` nothing, nor has another task. -/
theorem Notified.untold {w : World} (h : Notified w) (hformed : Formed w) {k r : RequestId}
    {owner t : SubscribeTask} (ho : w.task k = some owner) (hpc : owner.pc = .notify)
    (hr : r ∈ owner.subsToNotify) (ht : w.task r = some t) (done : Received PublishDoneMessage) :
    .publishDone done ∉ t.written := by
  intro hmem
  obtain ⟨answer, owner₁, hok, ho₁, -, -, -, htodo⟩ := h.told r t done ht hmem
  obtain ⟨t₁, ht₁, hsame⟩ := h.pending k owner ho hpc r hr
  obtain rfl := Option.mem_unique ht ht₁
  obtain ⟨ok, hown⟩ := (hformed k owner ho).own (by rw [hpc]; rfl)
  have hanswer : answer = ⟨k, ok⟩ := by
    rw [hok, hown] at hsame
    exact Option.some.inj hsame
  subst hanswer
  obtain rfl := Option.mem_unique ho ho₁
  exact htodo hr

theorem dones_eq_zero {t : SubscribeTask}
    (h : ∀ done, Response.publishDone done ∉ t.written) : t.dones = 0 := by
  rw [SubscribeTask.dones, List.countP_eq_zero]
  intro response hmem hdone
  cases response with
  | publishDone done => exact h done hmem
  | subscribeOk ok => cases hdone
  | requestError error => cases hdone

/-- The step that writes a PUBLISH_DONE to `r` takes `r` off the list. -/
theorem Step.takesOff {w w' : World} {k r : RequestId} {input : Input}
    (h : Step w (.subscribe k input) w') {owner : SubscribeTask} (ho : w.task k = some owner)
    (hpc : owner.pc = .notify) {rs : List RequestId} (htodo : owner.subsToNotify = r :: rs) :
    ∃ owner', w'.task k = some owner' ∧ owner'.pc = .notify ∧
      owner'.publishDone = owner.publishDone ∧ owner'.subsToNotify = rs := by
  cases h with
  | subscribe ho₀ hs =>
    obtain rfl := Option.mem_unique ho ho₀
    obtain ⟨u, owner', ho', hagree, hmove⟩ := hs.move ho
    cases hmove with
    | notify _ htodo' =>
      rw [htodo] at htodo'
      obtain ⟨-, rfl⟩ := List.cons.inj htodo'
      exact ⟨owner', ho', hagree.pc.trans hpc, hagree.publishDone, hagree.subsToNotify⟩
    | leave _ hnil =>
      rw [hnil hpc] at htodo
      cases htodo
    | early hpc' | search hpc' | lock hpc' | join hpc' | vacant hpc' | answered hpc' | record hpc'
    | forwarded hpc' | done hpc' | fetch hpc' =>
      rw [hpc] at hpc'
      cases hpc'

theorem Notified.step_told {w w' : World} {l : Label} (h : Notified w) (hformed : Formed w)
    (hstep : Step w l w') {r : RequestId} {t' : SubscribeTask}
    {done : Received PublishDoneMessage} (ht' : w'.task r = some t')
    (hmem : Response.publishDone done ∈ t'.written) : Told w' r t' done := by
  obtain ⟨t, ht, hold | ⟨k, owner, rs, rfl, ho, hpc, hdone, htodo⟩⟩ := hstep.writesDone ht' hmem
  · exact (h.told r t done ht hold).step hformed hstep ht ht'
  · have hr : r ∈ owner.subsToNotify := by simp [htodo]
    have hnodup := h.nodup k owner ho hpc
    rw [htodo, List.nodup_cons] at hnodup
    obtain ⟨ok, hown⟩ := (hformed k owner ho).own (by rw [hpc]; rfl)
    obtain ⟨t₁, ht₁, hsame⟩ := h.pending k owner ho hpc r hr
    obtain rfl := Option.mem_unique ht ht₁
    obtain ⟨t₂, ht₂, hkeeps⟩ := hstep.keeps hformed ht (hsame.trans hown)
    obtain rfl := Option.mem_unique ht' ht₂
    obtain ⟨owner', ho', hpc', hdone', htodo'⟩ := hstep.takesOff ho hpc htodo
    obtain ⟨o₁, ho₁, hkeeps'⟩ := hstep.keeps hformed ho hown
    obtain rfl := Option.mem_unique ho' ho₁
    refine ⟨⟨k, ok⟩, owner', hkeeps.subscribeOk.trans (hsame.trans hown), ho',
      hkeeps'.subscribeOk.trans hown, hdone'.trans hdone, by rw [hpc']; rfl, ?_⟩
    rw [htodo']
    exact hnodup.1

/-- Where the list of a task that notifies comes from: it had one, or it fetches it now. -/
theorem Step.notifyList {w w' : World} {l : Label} (h : Step w l w') {k : RequestId}
    {owner' : SubscribeTask} (ho' : w'.task k = some owner') (hpc : owner'.pc = .notify) :
    ∃ owner, w.task k = some owner ∧ owner'.subscribeOk = owner.subscribeOk ∧
      (owner.pc = .notify ∧ owner'.subsToNotify.Sublist owner.subsToNotify ∨
        owner.pc = .fetchSubscribers ∧ (∃ input, l = .subscribe k input) ∧
          ∃ track, owner.track = some track ∧
            owner'.subsToNotify = w.state.findSubscriberRequests track) := by
  rcases h.before ho' with ⟨owner, ho⟩ | ⟨session, message, rfl⟩
  · have hk := h.task k
    rw [ho, ho'] at hk
    refine ⟨owner, ho, ?_⟩
    cases hk with
    | kept hagree =>
      rw [hagree.pc] at hpc
      exact ⟨hagree.subscribeOk, .inl ⟨hpc, by rw [hagree.subsToNotify]⟩⟩
    | moved hl hagree hmove =>
      rw [hagree.pc] at hpc
      rw [hagree.subscribeOk, hagree.subsToNotify]
      cases hmove with
      | fetch hpc' htrack => exact ⟨rfl, .inr ⟨hpc', ⟨_, hl⟩, _, htrack, rfl⟩⟩
      | notify hpc' htodo =>
        refine ⟨rfl, .inl ⟨hpc', ?_⟩⟩
        rw [htodo]
        exact List.sublist_cons_self _ _
      | early _ hpc' | search _ hpc' =>
        change _ = SubscribePc.notify at hpc
        subst hpc
        cases hpc'
      | _ => cases hpc
  · cases hpc

/-- A list that is fetched from the own entry names each request once, and only requests that were
answered with the own SUBSCRIBE_OK. -/
theorem Lifecycle.fetchedList {w : World} (h : Lifecycle w) {k : RequestId} {owner : SubscribeTask}
    {track : FullTrackName} (ho : w.task k = some owner)
    (hown : ∀ sub ∈ w.state.subscriptions.lookup track, sub.subscribeOk.upstream = k) :
    (w.state.findSubscriberRequests track).Nodup ∧
      ∀ r ∈ w.state.findSubscriberRequests track,
        ∃ t, w.task r = some t ∧ t.subscribeOk = owner.subscribeOk := by
  cases hsub : w.state.subscriptions.lookup track with
  | none => simp [RelayState.findSubscriberRequests, hsub]
  | some sub =>
    have hk : sub.subscribeOk.upstream = k := hown sub hsub
    obtain ⟨-, o, session, ho₁, -, -, hok⟩ := h.upstreams.owner track sub hsub
    rw [hk] at ho₁
    obtain rfl := Option.mem_unique ho ho₁
    constructor
    · simpa only [RelayState.findSubscriberRequests, hsub] using h.upstreams.nodup track sub hsub
    · intro r hr
      obtain ⟨sub₁, hsub₁, e, he, rfl⟩ := RelayState.mem_findSubscriberRequests.mp hr
      obtain rfl := Option.mem_unique hsub hsub₁
      obtain ⟨t, ht, -, -, hans⟩ := h.upstreams.listed track sub hsub e he
      exact ⟨t, ht, hans.trans hok.symm⟩

theorem Notified.step_pending {w w' : World} {l : Label} (h : Notified w) (hlife : Lifecycle w)
    (hown : FetchesOwn w l) (hstep : Step w l w') {k : RequestId} {owner' : SubscribeTask}
    (ho' : w'.task k = some owner') (hpc : owner'.pc = .notify) :
    owner'.subsToNotify.Nodup ∧ ∀ r ∈ owner'.subsToNotify,
      ∃ t, w'.task r = some t ∧ t.subscribeOk = owner'.subscribeOk := by
  obtain ⟨owner, ho, hsame, hlist⟩ := hstep.notifyList ho' hpc
  -- it is enough to look at the tasks before the step
  have before : owner'.subsToNotify.Nodup ∧ ∀ r ∈ owner'.subsToNotify,
      ∃ t, w.task r = some t ∧ t.subscribeOk = owner.subscribeOk := by
    rcases hlist with ⟨hpc₀, hsublist⟩ | ⟨hpc₀, ⟨input, rfl⟩, track, htrack, heq⟩
    · exact ⟨(h.nodup k owner ho hpc₀).sublist hsublist,
        fun r hr => h.pending k owner ho hpc₀ r (hsublist.subset hr)⟩
    · rw [heq]
      exact hlife.fetchedList ho (hown owner ho hpc₀ track htrack)
  have hown' : ∃ ok, owner.subscribeOk = some ⟨k, ok⟩ := by
    refine (hlife.formed k owner ho).own ?_
    rcases hlist with ⟨hpc₀, -⟩ | ⟨hpc₀, -⟩ <;> rw [hpc₀] <;> rfl
  obtain ⟨ok, hok⟩ := hown'
  refine ⟨before.1, fun r hr => ?_⟩
  obtain ⟨t, ht, hans⟩ := before.2 r hr
  obtain ⟨t', ht', hkeeps⟩ := hstep.keeps hlife.formed ht (hans.trans hok)
  exact ⟨t', ht', hkeeps.subscribeOk.trans (hans.trans hsame.symm)⟩

theorem Notified.step_once {w w' : World} {l : Label} (h : Notified w) (hformed : Formed w)
    (hstep : Step w l w') {r : RequestId} {t' : SubscribeTask} (ht' : w'.task r = some t') :
    t'.dones ≤ 1 := by
  rcases hstep.before ht' with ⟨t, ht⟩ | ⟨session, message, rfl⟩
  · rcases hstep.writes ht ht' with hsame | ⟨k, owner, input, responses, rfl, ho, hwrites, hwritten⟩
    · rw [SubscribeTask.dones, hsame]
      exact h.once r t ht
    · have hsum : t'.dones = t.dones + responses.countP Response.isDone := by
        rw [SubscribeTask.dones, hwritten, List.countP_append, SubscribeTask.dones]
      have hold := h.once r t ht
      cases hwrites with
      | nothing => exact Nat.le_trans (Nat.le_of_eq hsum) hold
      | rejected hr hpc error => exact Nat.le_trans (Nat.le_of_eq hsum) hold
      | answered hr hpc hok => exact Nat.le_trans (Nat.le_of_eq hsum) hold
      | done hpc hdone htodo =>
        have hr : r ∈ owner.subsToNotify := by simp [htodo]
        have hzero := dones_eq_zero (h.untold hformed ho hpc hr ht)
        rw [hsum, hzero]
        exact Nat.le_refl _
  · exact Nat.zero_le _

theorem Notified.new : Notified .new where
  told r _ _ ht := absurd ht (World.not_task_new r)
  nodup k _ ho := absurd ho (World.not_task_new k)
  pending k _ ho := absurd ho (World.not_task_new k)
  once r _ ht := absurd ht (World.not_task_new r)

theorem Notified.step {w w' : World} {l : Label} (h : Notified w) (hlife : Lifecycle w)
    (hown : FetchesOwn w l) (hstep : Step w l w') : Notified w' where
  told _ _ _ ht' hmem := h.step_told hlife.formed hstep ht' hmem
  nodup _ _ ho' hpc := (h.step_pending hlife hown hstep ho' hpc).1
  pending _ _ ho' hpc := (h.step_pending hlife hown hstep ho' hpc).2
  once _ _ ht' := h.step_once hlife.formed hstep ht'

/-- Every request has been sent at most one PUBLISH_DONE, and only the one received on the upstream
subscription whose SUBSCRIBE_OK it was answered with. -/
def DoneOnce (w : World) : Prop :=
  ∀ (r : RequestId) (t : SubscribeTask), w.task r = some t → t.dones ≤ 1 ∧
    ∀ done, Response.publishDone done ∈ t.written → ∃ answer owner, t.subscribeOk = some answer ∧
      (∀ ok, Response.subscribeOk ok ∈ t.written → ok = answer) ∧
      w.task answer.upstream = some owner ∧ owner.subscribeOk = some answer ∧
      owner.publishDone = some done

theorem doneOnce_of_fetchesOwn (ls : List Label) (h : relay.Meets FetchesOwn .new ls) :
    DoneOnce (relay.run .new ls) := by
  have hwritten := okWritten_of_run ls
  obtain ⟨-, hnotified⟩ : Lifecycle (relay.run .new ls) ∧ Notified (relay.run .new ls) := by
    refine Machine.invariant (I := fun w => Lifecycle w ∧ Notified w) ⟨.new, .new⟩ ?_ h
    intro w l w' hw hown hstep
    have hstep := Step.of_step hstep
    exact ⟨hw.1.step hstep, hw.2.step hw.1 hown hstep⟩
  intro r t ht
  refine ⟨hnotified.once r t ht, fun done hmem => ?_⟩
  obtain ⟨answer, owner, hok, ho, howner, hdone, -⟩ := hnotified.told r t done ht hmem
  refine ⟨answer, owner, hok, fun ok hmem => ?_, ho, howner, hdone⟩
  exact Option.mem_unique (hwritten r t ok ht hmem) hok

/-- The only subscriber of a track leaves, another one asks for the track, and then the publisher
ends the first upstream subscription. -/
def endedAfterReplacement : List Label :=
  [Label.connect, .connect, .connect] ++ Schedule.announce 0 0 ⟨[[1]]⟩ ++
    Schedule.ask 1 0 ⟨[[1]]⟩ [0x61] ++ Schedule.fetchUpstream 0 7 ++
    [Label.subscribe 0 (.responded 0 true)] ++ Schedule.disconnect 1 ++
    Schedule.ask 2 1 ⟨[[1]]⟩ [0x61] ++ Schedule.fetchUpstream 1 8 ++
    [Label.subscribe 1 (.responded 1 true)] ++ Schedule.endTrack 0 ++
    [Label.subscribe 0 (.responded 1 true)]

set_option maxRecDepth 4096 in
theorem not_doneOnce_endedAfterReplacement : ¬∀ ls, DoneOnce (relay.run .new ls) := by
  intro h
  have hsome : ((relay.run .new endedAfterReplacement).task 1).isSome := by decide
  obtain ⟨t, ht⟩ := Option.isSome_iff_exists.mp hsome
  have hboth : (t.written, t.publishDone) =
      ([.subscribeOk ⟨1, ⟨8, [], []⟩⟩, .publishDone ⟨0, ⟨0, 0, ⟨[]⟩⟩⟩], none) := by
    have hdecided : ((relay.run .new endedAfterReplacement).task 1).map
        (fun t => (t.written, t.publishDone)) =
      some ([.subscribeOk ⟨1, ⟨8, [], []⟩⟩, .publishDone ⟨0, ⟨0, 0, ⟨[]⟩⟩⟩], none) := by decide
    rw [ht] at hdecided
    exact Option.some.inj hdecided
  obtain ⟨hwritten, hnone⟩ := Prod.mk.inj hboth
  -- the PUBLISH_DONE of the first subscription, on a stream answered by the second
  obtain ⟨answer, owner, -, hanswer, ho, -, hdone⟩ :=
    (h endedAfterReplacement 1 t ht).2 ⟨0, ⟨0, 0, ⟨[]⟩⟩⟩ (by simp [hwritten])
  have hupstream : answer = ⟨1, ⟨8, [], []⟩⟩ := (hanswer _ (by simp [hwritten])).symm
  subst hupstream
  obtain rfl := Option.mem_unique ht ho
  rw [hnone] at hdone
  cases hdone

/-- A publisher ends a track with two subscribers. -/
theorem doneOnce_twoSubscribers : DoneOnce (relay.run .new
    ([Label.connect, .connect, .connect] ++ Schedule.announce 0 0 ⟨[[1]]⟩ ++
      Schedule.ask 1 0 ⟨[[1]]⟩ [0x61] ++ Schedule.fetchUpstream 0 7 ++
      [Label.subscribe 0 (.responded 0 true)] ++ Schedule.ask 2 1 ⟨[[1]]⟩ [0x61] ++
      [Label.subscribe 1 (.responded 1 true)] ++ Schedule.endTrack 0 ++
      [Label.subscribe 0 (.responded 0 true), .subscribe 0 (.responded 1 true)])) :=
  doneOnce_of_fetchesOwn _ (by decide)

end Moqt.Relay
