import Moqt.Relay.Orphan

/-! The subscribers of an upstream subscription.  From the step on in which a subscriber is
recorded, it is in the entry of the track, as long as its session and that of the publisher are
there. -/

namespace Moqt.Relay

open Library Wire

/-! ### Subscribers -/

theorem TaskStep.session {w : World} {l : Label} {j : RequestId} {t t' : SubscribeTask}
    (h : TaskStep w l j (some t) (some t')) : t'.session = t.session := by
  cases h with
  | kept hagree => exact hagree.session
  | moved hl hagree hmove =>
    rw [hagree.session]
    cases hmove <;> rfl

/-- The subscribers of the tasks were sessions. -/
def SubscribersKnown (w : World) : Prop :=
  ∀ (j : RequestId) (t : SubscribeTask), w.task j = some t → t.session < w.state.nextSessionId

theorem SubscribersKnown.step {w w' : World} {l : Label} (h : SubscribersKnown w) (hids : Ids w)
    (hstep : Step w l w') : SubscribersKnown w' := by
  intro j t' ht'
  refine Nat.lt_of_lt_of_le ?_ hstep.stateStep.nextSessionId_le
  cases ht : w.task j with
  | some t =>
    have hj := hstep.task j
    rw [ht, ht'] at hj
    rw [hj.session]
    exact h j t ht
  | none =>
    cases hstep with
    | event hconn hstatus event =>
      cases event with
      | subscribe message =>
        rcases World.task_spawn.mp ht' with hold | ⟨-, rfl⟩
        · rw [ht] at hold
          cases hold
        · exact hids.connections _ _ hconn
      | _ => exact absurd (ht.symm.trans ht') (by simp)
    | subscribe ht₀ hs => exact absurd ((hs.absent ht).symm.trans ht') (by simp)
    | dataStream ht₀ hs =>
      rw [hs.frame] at ht'
      exact absurd (ht.symm.trans ht') (by simp)
    | _ => exact absurd (ht.symm.trans ht') (by simp)

/-! ### The entry -/

/-- A subscriber is dropped from an entry only with its session, or with the publisher's. -/
theorem Step.subscriberStays {w w' : World} {l : Label} (h : Step w l w') {track : FullTrackName}
    {sub : Subscription} {e : SubscriberEntry}
    (hsub : w.state.subscriptions.lookup track = some sub) (he : e ∈ sub.subscribers)
    (hpublisher : sub.publisherSession ∈ w'.state.sessions)
    (hsession : e.sessionId ∈ w'.state.sessions) :
    ∃ sub', w'.state.subscriptions.lookup track = some sub' ∧
      sub'.publisherSession = sub.publisherSession ∧
      sub'.publisherTrackAlias = sub.publisherTrackAlias ∧ e ∈ sub'.subscribers := by
  have pushed (track₁ : FullTrackName) (existing : Subscription) (entry : SubscriberEntry)
      (hsame : track = track₁ → existing = sub) :
      ∃ sub', (w.state.pushSubscriber track₁ existing entry).subscriptions.lookup track =
        some sub' ∧ sub'.publisherSession = sub.publisherSession ∧
        sub'.publisherTrackAlias = sub.publisherTrackAlias ∧ e ∈ sub'.subscribers := by
    by_cases heq : track = track₁
    · obtain rfl := hsame heq
      exact ⟨_, RelayState.lookup_pushSubscriber.mpr (.inl ⟨heq, rfl⟩), rfl, rfl,
        List.mem_append_left _ he⟩
    · exact ⟨sub, RelayState.lookup_pushSubscriber.mpr (.inr ⟨heq, hsub⟩), rfl, rfl, he⟩
  have hstate := h.stateStep
  generalize w'.state = s at hstate hpublisher hsession ⊢
  cases hstate with
  | @removeSession c conn hconn =>
    have hkept : e ∈ sub.subscribers.filter fun e => e.sessionId ≠ conn.sessionId :=
      List.mem_filter.mpr ⟨he, by simpa using (RelayState.mem_removeSession.mp hsession).2⟩
    refine ⟨_, RelayState.lookup_removeSession_subscriptions.mpr ⟨sub, hsub,
      RelayState.keepWithout_eq_some.mpr ⟨(RelayState.mem_removeSession.mp hpublisher).2, rfl, ?_⟩⟩,
      rfl, rfl, hkept⟩
    exact List.ne_nil_of_mem hkept
  | trackLock track₁ =>
    unfold RelayState.trackLock
    split <;> exact ⟨sub, hsub, rfl, rfl, he⟩
  | pushSubscriber ht hpc htrack hexisting =>
    refine pushed _ _ _ ?_
    rintro rfl
    exact Option.mem_unique hexisting hsub
  | @addSubscriber k t track₁ publisher answer ht hpc htrack hpublisher hanswer =>
    cases hlookup : w.state.subscriptions.lookup track₁ with
    | some existing =>
      rw [RelayState.addSubscriber_existing hlookup]
      refine pushed _ _ _ ?_
      rintro rfl
      exact Option.mem_unique hlookup hsub
    | none =>
      rw [RelayState.addSubscriber_vacant hlookup]
      refine pushed _ _ _ ?_
      rintro rfl
      rw [hsub] at hlookup
      cases hlookup
  | _ => exact ⟨sub, hsub, rfl, rfl, he⟩

/-- The task has recorded its upstream subscription. -/
def SubscribeTask.Recorded (t : SubscribeTask) (k : RequestId) : Prop :=
  t.pc ≠ .record ∧ ∃ answer ∈ t.subscribeOk, answer.upstream = k

instance (t : SubscribeTask) (k : RequestId) : Decidable (t.Recorded k) :=
  inferInstanceAs (Decidable (_ ∧ ∃ answer ∈ t.subscribeOk, _))

/-- The subscriber is in an entry of the publisher and alias. -/
def World.ListsUnder (w : World) (publisher : SessionId) (trackAlias : UInt64) (r : RequestId)
    (session : SessionId) : Prop :=
  ∃ track sub, w.state.subscriptions.lookup track = some sub ∧ sub.publisherSession = publisher ∧
    sub.publisherTrackAlias = trackAlias ∧ ⟨session, r⟩ ∈ sub.subscribers

/-- Who has been recorded for the upstream subscription of `k` is in its entry, as long as both
sessions are there. -/
def RecordedListed (w : World) : Prop :=
  ∀ (r k : RequestId) (u : SubscribeTask) (ok : SubscribeOkMessage), w.task r = some u →
    u.pc ≠ .record → u.subscribeOk = some ⟨k, ok⟩ → ∃ owner publisher, w.task k = some owner ∧
      owner.publisher = some publisher ∧ owner.subscribeOk = some ⟨k, ok⟩ ∧
      (publisher.1 ∈ w.state.sessions → u.session ∈ w.state.sessions →
        w.ListsUnder publisher.1 ok.trackAlias r u.session)

/-- The step that records a subscription makes its subscriber the first one. -/
theorem SubscribeStep.firstListed {w w' : World} {k : RequestId} {t : SubscribeTask} {input : Input}
    (h : SubscribeStep w k t input w') (ht : w.task k = some t) (hlife : Lifecycle w)
    (hpc : t.pc = .record) {ok : SubscribeOkMessage} (hok : t.subscribeOk = some ⟨k, ok⟩) :
    ∃ publisher, t.publisher = some publisher ∧
      w'.ListsUnder publisher.1 ok.trackAlias k t.session := by
  cases h with
  | @record _ track publisher _ htrack hpublisher hanswer hfree =>
    obtain rfl := Option.mem_unique hok hanswer
    have hvacant := hlife.locks.vacant k t track ht (by rw [hpc]; rfl) htrack
    refine ⟨publisher, hpublisher, track, ?_⟩
    show ∃ sub, (w.state.addSubscriber _ _ _ _ _).subscriptions.lookup track = some sub ∧ _
    rw [RelayState.addSubscriber_vacant hvacant]
    exact ⟨_, RelayState.lookup_pushSubscriber.mpr (.inl ⟨rfl, rfl⟩), rfl, rfl,
      List.mem_singleton.mpr rfl⟩
  | silent _ h => simp [SilentExit, hpc] at h
  | _ => simp_all

/-- A subscriber that joins a subscription is added to its entry. -/
theorem SubscribeStep.joinListed {w w' : World} {k : RequestId} {t : SubscribeTask} {input : Input}
    (h : SubscribeStep w k t input w') (hpc : t.pc = .aggregate) {track : FullTrackName}
    {existing : Subscription} (htrack : t.track = some track)
    (hexisting : w.state.subscriptions.lookup track = some existing) :
    w'.ListsUnder existing.publisherSession existing.publisherTrackAlias k t.session := by
  cases h with
  | join _ htrack₁ hfree hexisting₁ =>
    obtain rfl := Option.mem_unique htrack htrack₁
    obtain rfl := Option.mem_unique hexisting hexisting₁
    exact ⟨track, _, RelayState.lookup_pushSubscriber.mpr (.inl ⟨rfl, rfl⟩), rfl, rfl,
      List.mem_append_right _ (List.mem_singleton.mpr rfl)⟩
  | vacant _ htrack₁ hfree hvacant =>
    obtain rfl := Option.mem_unique htrack htrack₁
    rw [hvacant] at hexisting
    cases hexisting
  | silent _ h => simp [SilentExit, hpc] at h
  | _ => simp_all

/-- The listed subscriber stays, as long as both sessions do. -/
theorem World.ListsUnder.step {w w' : World} {l : Label} {publisher : SessionId}
    {trackAlias : UInt64} {r : RequestId} {session : SessionId}
    (h : w.ListsUnder publisher trackAlias r session) (hstep : Step w l w')
    (hpublisher : publisher ∈ w'.state.sessions) (hsession : session ∈ w'.state.sessions) :
    w'.ListsUnder publisher trackAlias r session := by
  obtain ⟨track, sub, hsub, rfl, rfl, he⟩ := h
  obtain ⟨sub', hsub', hpub', halias', he'⟩ := hstep.subscriberStays hsub he hpublisher hsession
  exact ⟨track, sub', hsub', hpub', halias', he'⟩

theorem RecordedListed.step {w w' : World} {l : Label} (h : RecordedListed w) (hlife : Lifecycle w)
    (hknown : PublishersKnown w) (hsubscribers : SubscribersKnown w) (hstep : Step w l w') :
    RecordedListed w' := by
  intro r k u' ok hu' hpc' hok'
  -- a session that an older task knows is not a new one
  have old {id : SessionId} (hid : id ∈ w'.state.sessions) (hlt : id < w.state.nextSessionId) :
      id ∈ w.state.sessions := by
    rcases hstep.stateStep.mem_sessions hid with hid | ⟨rfl, -⟩
    · exact hid
    · exact absurd hlt (Nat.lt_irrefl _)
  have own {owner : SubscribeTask} {publisher : SessionId × MoqtSession}
      (ho : w.task k = some owner) (hpublisher : owner.publisher = some publisher)
      (hown : owner.subscribeOk = some ⟨k, ok⟩) : ∃ owner', w'.task k = some owner' ∧
        owner'.publisher = some publisher ∧ owner'.subscribeOk = some ⟨k, ok⟩ := by
    obtain ⟨owner', ho', hkeeps⟩ := hstep.keeps hlife.formed ho hown
    exact ⟨owner', ho', hkeeps.publisher.trans hpublisher, hkeeps.subscribeOk.trans hown⟩
  rcases hstep.before hu' with ⟨u, hu⟩ | ⟨session, message, rfl⟩
  · have hsession := TaskStep.session (hu ▸ hu' ▸ hstep.task r)
    have hr := hstep.task r
    rw [hu, hu'] at hr
    by_cases hok : u.subscribeOk = some ⟨k, ok⟩
    · by_cases hpc : u.pc = .record
      · -- the step records it
        cases hr with
        | kept hagree => exact absurd (hagree.pc.trans hpc) hpc'
        | moved hl hagree hmove =>
          subst hl
          cases hstep with
          | subscribe hu₀ hs =>
            obtain rfl := Option.mem_unique hu hu₀
            obtain ⟨ok₁, hok₁⟩ := (hlife.formed r u hu).own (by rw [hpc]; rfl)
            obtain ⟨rfl, rfl⟩ : r = k ∧ ok₁ = ok := by simpa using hok₁.symm.trans hok
            obtain ⟨publisher, hpublisher, hlists⟩ := hs.firstListed hu hlife hpc hok
            obtain ⟨owner', ho', hpublisher', hown'⟩ := own hu hpublisher hok
            exact ⟨owner', publisher, ho', hpublisher', hown', fun _ _ => hsession ▸ hlists⟩
      · obtain ⟨owner, publisher, ho, hpublisher, hown, hlists⟩ := h r k u ok hu hpc hok
        obtain ⟨owner', ho', hpublisher', hown'⟩ := own ho hpublisher hown
        refine ⟨owner', publisher, ho', hpublisher', hown', fun hmem hmem' => ?_⟩
        rw [hsession] at hmem' ⊢
        exact (hlists (old hmem (hknown k owner ho _ hpublisher))
          (old hmem' (hsubscribers r u hu))).step hstep hmem hmem'
    · cases hr with
      | kept hagree => exact absurd (hagree.subscribeOk.symm.trans hok') hok
      | moved hl hagree hmove =>
        rw [hagree.subscribeOk] at hok'
        rw [hagree.pc] at hpc'
        subst hl
        cases hmove with
        | answered => exact absurd rfl hpc'
        | join hpc htrack hexisting =>
          obtain ⟨halias, owner, session, ho, -, hpublisher, hown⟩ :=
            hlife.upstreams.owner _ _ hexisting
          rw [Option.some.inj hok'] at halias ho hown
          obtain ⟨owner', ho', hpublisher', hown'⟩ := own ho hpublisher hown
          refine ⟨owner', _, ho', hpublisher', hown', fun _ _ => ?_⟩
          cases hstep with
          | subscribe hu₀ hs =>
            obtain rfl := Option.mem_unique hu hu₀
            rw [hsession, show ok.trackAlias = _ from halias.symm]
            exact hs.joinListed hpc htrack hexisting
        | _ => exact absurd hok' hok
  · cases hok'

/-! ### Publishers -/

/-- A publisher is known by the session that it has. -/
def PublisherHandles (w : World) : Prop :=
  ∀ (j : RequestId) (t : SubscribeTask), w.task j = some t →
    ∀ publisher ∈ t.publisher, publisher.2.connection = publisher.1

theorem PublisherHandles.step {w w' : World} {l : Label} (h : PublisherHandles w)
    (hnumbered : Numbered w) (hstep : Step w l w') : PublisherHandles w' := by
  intro j t' ht' publisher hpublisher
  rcases hstep.before ht' with ⟨t, ht⟩ | ⟨session, message, rfl⟩
  · have same (hsame : t'.publisher = t.publisher) : publisher.2.connection = publisher.1 :=
      h j t ht publisher (hsame ▸ hpublisher)
    have hj := hstep.task j
    rw [ht, ht'] at hj
    cases hj with
    | kept hagree => exact same hagree.publisher
    | moved hl hagree hmove =>
      subst hl
      cases hstep with
      | subscribe ht₀ hs =>
        rcases hs.publisher ht₀ ht ht' with hsame | ⟨-, found, hfound, hsession⟩
        · exact same hsame
        · obtain rfl := Option.mem_unique hpublisher hfound
          exact hnumbered.session _ _ hsession
  · cases hpublisher

/-- What holds in every state of every run of the subscribers and publishers that tasks know. -/
structure Known (w : World) : Prop where
  lifecycle : Lifecycle w
  ids : Ids w
  numbered : Numbered w
  publishers : PublishersKnown w
  subscribers : SubscribersKnown w
  handles : PublisherHandles w
  listed : RecordedListed w

theorem Known.new : Known World.new where
  lifecycle := .new
  ids := .init
  numbered := .new
  publishers j _ ht := absurd ht (World.not_task_new j)
  subscribers j _ ht := absurd ht (World.not_task_new j)
  handles j _ ht := absurd ht (World.not_task_new j)
  listed j _ _ _ ht := absurd ht (World.not_task_new j)

theorem Known.step {w w' : World} {l : Label} (h : Known w) (hstep : Step w l w') : Known w' where
  lifecycle := h.lifecycle.step hstep
  ids := h.ids.step hstep
  numbered := h.numbered.step hstep
  publishers := h.publishers.step h.ids hstep
  subscribers := h.subscribers.step h.ids hstep
  handles := h.handles.step h.numbered hstep
  listed := h.listed.step h.lifecycle h.publishers h.subscribers hstep

theorem known_of_reachable {w : World} (h : relay.Reachable w) : Known w :=
  h.invariant Known.new fun _ _ _ hI hstep => hI.step (Step.of_step hstep)

end Moqt.Relay
