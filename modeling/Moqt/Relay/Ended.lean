import Moqt.Relay.Upstream

/-! Upstream subscriptions that have ended.  The task that owns one leaves its entry in the map when
it has received PUBLISH_DONE, so that a later SUBSCRIBE finds it there.  Where the entry is gone by
then, no SUBSCRIBE joins an ended subscription. -/

namespace Moqt.Relay

open Library Wire

/-- The task has received PUBLISH_DONE and has fetched the subscribers to notify. -/
def SubscribeTask.Ended (t : SubscribeTask) : Prop :=
  t.publishDone.isSome ∧ t.pc ≠ .fetchSubscribers

instance (t : SubscribeTask) : Decidable t.Ended :=
  inferInstanceAs (Decidable (_ ∧ _))

theorem SubscribeTask.Ended.of_agree {t t' : SubscribeTask} (h : t'.Ended) (hagree : Agree t t') :
    t.Ended := by
  obtain ⟨hdone, hpc⟩ := h
  rw [hagree.publishDone] at hdone
  rw [hagree.pc] at hpc
  exact ⟨hdone, hpc⟩

/-- A subscription ends when its task fetches the subscribers. -/
theorem Move.ended {w : World} {k : RequestId} {t u : SubscribeTask} {input : Input}
    (h : Move w k t input u) (hwf : t.Wf k) (hended : u.Ended) :
    t.Ended ∨ t.pc = .fetchSubscribers := by
  have early (hpc : t.pc.ending = false) (hsome : t.publishDone.isSome) : False := by
    rw [hwf.publishDone_none hpc] at hsome
    cases hsome
  cases h with
  | early hpc hpc' track =>
    exact (early (SubscribePc.not_ending_of_unanswered (SubscribePc.unanswered_of_early hpc))
      hended.1).elim
  | search hpc hpc' publisher upstreamRequest =>
    exact (early (SubscribePc.not_ending_of_unanswered (SubscribePc.unanswered_of_searching hpc))
      hended.1).elim
  | done hpc done hinput => exact (hended.2 rfl).elim
  | fetch hpc htrack => exact .inr hpc
  | notify hpc htodo => exact .inl hended
  | leave hpc htodo => exact .inl ⟨hended.1, hpc.2⟩
  | lock hpc => exact (early (by rw [hpc]; rfl) hended.1).elim
  | join hpc htrack hexisting => exact (early (by rw [hpc]; rfl) hended.1).elim
  | vacant hpc htrack hvacant => exact (early (by rw [hpc]; rfl) hended.1).elim
  | answered hpc ok hinput => exact (early (by rw [hpc]; rfl) hended.1).elim
  | record hpc => exact (early (by rw [hpc]; rfl) hended.1).elim
  | forwarded hpc => exact (early (by rw [hpc]; rfl) hended.1).elim

theorem Step.ended {w w' : World} {l : Label} (h : Step w l w') (hformed : Formed w)
    {j : RequestId} {t t' : SubscribeTask} (ht : w.task j = some t) (ht' : w'.task j = some t')
    (hended : t'.Ended) :
    t.Ended ∨ t.pc = .fetchSubscribers ∧ ∃ input, l = .subscribe j input := by
  have hj := h.task j
  rw [ht, ht'] at hj
  cases hj with
  | kept hagree => exact .inl (hended.of_agree hagree)
  | moved hl hagree hmove =>
    rcases hmove.ended (hformed j t ht) (hended.of_agree hagree) with hended | hpc
    · exact .inl hended
    · exact .inr ⟨hpc, _, hl⟩

/-! ### Entries of ended subscriptions -/

/-- A task that has its PUBLISH_DONE and comes to fetch the subscribers finds no entry of its own
upstream subscription: it has gone with its publisher or with its last subscriber. -/
def EntryGone (w : World) : Label → Prop
  | .subscribe k _ => ∀ t ∈ w.task k, t.pc = .fetchSubscribers → ∀ track ∈ t.track,
      ∀ sub ∈ w.state.subscriptions.lookup track, sub.subscribeOk.upstream ≠ k
  | _ => True

instance (w : World) (l : Label) : Decidable (EntryGone w l) :=
  match l with
  | .subscribe k _ => inferInstanceAs (Decidable (∀ t ∈ w.task k, t.pc = .fetchSubscribers →
      ∀ track ∈ t.track, ∀ sub ∈ w.state.subscriptions.lookup track, sub.subscribeOk.upstream ≠ k))
  | .connect | .event _ _ | .eventError _ | .removeSession _ | .publishNamespace _ _
  | .dataStream _ _ => isTrue trivial

/-- The task of the subscription has not ended. -/
def Subscription.Live (w : World) (sub : Subscription) : Prop :=
  ∀ owner ∈ w.task sub.subscribeOk.upstream, ¬ owner.Ended

instance (w : World) (sub : Subscription) : Decidable (sub.Live w) :=
  inferInstanceAs (Decidable (∀ owner ∈ w.task sub.subscribeOk.upstream, ¬ owner.Ended))

/-- No subscription in the map has ended. -/
def AllLive (w : World) : Prop :=
  ∀ (track : FullTrackName) (sub : Subscription), w.state.subscriptions.lookup track = some sub →
    sub.Live w

theorem AllLive.step {w w' : World} {l : Label} (h : AllLive w) (hlife : Lifecycle w)
    (hgone : EntryGone w l) (hstep : Step w l w') : AllLive w' := by
  intro track sub' hsub' t' ht' hended
  have old (sub : Subscription) (hsub : w.state.subscriptions.lookup track = some sub)
      (ht' : w'.task sub.subscribeOk.upstream = some t') : False := by
    obtain ⟨-, t, session, ht, htrack, -, hok⟩ := hlife.upstreams.owner track sub hsub
    rcases hstep.ended hlife.formed ht ht' hended with hbefore | ⟨hpc, input, rfl⟩
    · exact h track sub hsub t ht hbefore
    · exact hgone t ht hpc track htrack sub hsub rfl
  cases hstep.subOrigin hlife.locks hsub' with
  | @old sub hsub hsame _ =>
    rw [hsame] at ht'
    exact old sub hsub ht'
  | @joined k t sub hl ht hpc htrack hsub _ heq =>
    rw [heq] at ht'
    exact old sub hsub ht'
  | @recorded k t publisher answer hl ht hpc htrack hpublisher hanswer hnew heq =>
    rw [heq] at ht'
    obtain ⟨ok, hok⟩ := (hlife.formed k t ht).own (by rw [hpc]; rfl)
    obtain rfl := Option.mem_unique hanswer hok
    obtain rfl := Option.mem_unique hnew ht'
    have hnone := (hlife.formed k t ht).publishDone_none (by rw [hpc]; rfl)
    have hsome := hended.1
    rw [hnone] at hsome
    cases hsome

theorem AllLive.new : AllLive .new :=
  fun _ _ hsub => absurd hsub World.not_lookup_new

/-! ### Aggregation -/

/-- A SUBSCRIBE at the aggregation joins an upstream subscription that has not ended, or goes on to
a publisher: to an upstream SUBSCRIBE of its own or to REQUEST_ERROR. -/
def JoinsLive (w : World) : Label → Prop
  | .subscribe r input => ∀ t ∈ w.task r, ∀ t' ∈ (relay.next w (.subscribe r input)).task r,
      (t.pc = .aggregate → t'.pc = .findPublisher ∨ t'.pc = .forwardExisting ∧
        ∃ answer ∈ t'.subscribeOk, ∃ owner ∈ w.task answer.upstream, ¬ owner.Ended) ∧
      (t.pc = .findPublisher → t'.pc = .openUpstream ∨ t'.pc = .rejectNoPublisher)
  | _ => True

instance (w : World) (l : Label) : Decidable (JoinsLive w l) :=
  match l with
  | .subscribe r input => inferInstanceAs (Decidable (∀ t ∈ w.task r,
      ∀ t' ∈ (relay.next w (.subscribe r input)).task r,
        (t.pc = .aggregate → t'.pc = .findPublisher ∨ t'.pc = .forwardExisting ∧
          ∃ answer ∈ t'.subscribeOk, ∃ owner ∈ w.task answer.upstream, ¬ owner.Ended) ∧
        (t.pc = .findPublisher → t'.pc = .openUpstream ∨ t'.pc = .rejectNoPublisher)))
  | .connect | .event _ _ | .eventError _ | .removeSession _ | .publishNamespace _ _
  | .dataStream _ _ => isTrue trivial

theorem SubscribeStep.aggregated {w w' : World} {k : RequestId} {t t' : SubscribeTask}
    {input : Input} (h : SubscribeStep w k t input w') (ht : w.task k = some t)
    (ht' : w'.task k = some t') (hpc : t.pc = .aggregate) : t'.pc = .findPublisher ∨
      t'.pc = .forwardExisting ∧ ∃ track sub, w.state.subscriptions.lookup track = some sub ∧
        t'.subscribeOk = some sub.subscribeOk := by
  cases h with
  | join _ htrack hfree hexisting =>
    obtain rfl := Option.mem_unique (World.task_update_self _ ht) ht'
    exact .inr ⟨rfl, _, _, hexisting, rfl⟩
  | vacant _ htrack hfree hvacant =>
    obtain rfl := Option.mem_unique (World.task_update_self _ ht) ht'
    exact .inl rfl
  | silent _ h => simp [SilentExit, hpc] at h
  | _ => simp_all

theorem SubscribeStep.searched {w w' : World} {k : RequestId} {t t' : SubscribeTask}
    {input : Input} (h : SubscribeStep w k t input w') (ht : w.task k = some t)
    (ht' : w'.task k = some t') (hpc : t.pc = .findPublisher) :
    t'.pc = .openUpstream ∨ t'.pc = .rejectNoPublisher := by
  cases h with
  | found _ hfree hfound =>
    obtain rfl := Option.mem_unique (World.task_update_self _ ht) ht'
    exact .inl rfl
  | noPublisher _ hfree hnone =>
    obtain rfl := Option.mem_unique (World.task_update_self _ ht) ht'
    exact .inr rfl
  | silent _ h => simp [SilentExit, hpc] at h
  | _ => simp_all

theorem AllLive.joinsLive {w w' : World} {l : Label} (h : AllLive w) (hlife : Lifecycle w)
    (hstep : relay.step w l = some w') : JoinsLive w l := by
  cases l with
  | subscribe r input =>
    intro t ht t' ht'
    rw [Machine.next_of_step hstep] at ht'
    cases Step.of_step hstep with
    | subscribe ht₀ hs =>
      obtain rfl := Option.mem_unique ht ht₀
      refine ⟨fun hpc => ?_, fun hpc => hs.searched ht ht' hpc⟩
      rcases hs.aggregated ht ht' hpc with hpc' | ⟨hpc', track, sub, hsub, hok⟩
      · exact .inl hpc'
      · obtain ⟨-, owner, session, howner, -⟩ := hlife.upstreams.owner track sub hsub
        exact .inr ⟨hpc', _, hok, owner, howner, h track sub hsub owner howner⟩
  | _ => trivial

/-- An ended upstream subscription is not reused in any run in which the entry is gone when its task
fetches the subscribers. -/
theorem joinsLive_of_entryGone (ls : List Label) (h : relay.Meets EntryGone .new ls) :
    relay.Meets JoinsLive .new ls := by
  refine Machine.Meets.of_invariant (I := fun w => Lifecycle w ∧ AllLive w) ?_ ?_ ⟨.new, .new⟩ h
  · intro w l w' hw hgone hstep
    exact ⟨hw.1.step (.of_step hstep), hw.2.step hw.1 hgone (.of_step hstep)⟩
  · intro w l w' hw _ hstep
    exact hw.2.joinsLive hw.1 hstep

/-- A publisher ends a track, and then a second subscriber asks for it. -/
def askedAfterEnd : List Label :=
  [Label.connect, .connect, .connect] ++ Schedule.announce 0 0 ⟨[[1]]⟩ ++
    Schedule.ask 1 0 ⟨[[1]]⟩ [0x61] ++ Schedule.fetchUpstream 0 7 ++
    [Label.subscribe 0 (.responded 0 true)] ++ Schedule.endTrack 0 ++
    Schedule.ask 2 1 ⟨[[1]]⟩ [0x61]

theorem not_joinsLive_askedAfterEnd : ¬∀ ls, relay.Meets JoinsLive .new ls := by
  intro h
  exact absurd (h askedAfterEnd) (by decide)

/-- The first subscriber has left when the publisher ends the track.  The second one's SUBSCRIBE
goes to the publisher, and the third one's joins that. -/
theorem joinsLive_afterDisconnect : relay.Meets JoinsLive .new
    ([Label.connect, .connect, .connect] ++ Schedule.announce 0 0 ⟨[[1]]⟩ ++
      Schedule.ask 1 0 ⟨[[1]]⟩ [0x61] ++ Schedule.fetchUpstream 0 7 ++
      [Label.subscribe 0 (.responded 0 true)] ++ Schedule.disconnect 1 ++ Schedule.endTrack 0 ++
      Schedule.ask 2 1 ⟨[[1]]⟩ [0x61] ++ Schedule.fetchUpstream 1 8 ++
      Schedule.ask 2 2 ⟨[[1]]⟩ [0x61]) :=
  joinsLive_of_entryGone _ (by decide)

end Moqt.Relay
