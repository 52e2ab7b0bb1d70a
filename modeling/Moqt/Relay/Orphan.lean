import Moqt.Relay.Namespace
import Moqt.Relay.Upstream

/-! Upstream subscriptions and their entries in the map.  An upstream subscription lives in the task
that waits for its PUBLISH_DONE; its entry goes with its last subscriber, whether or not the task
still waits. -/

namespace Moqt.Relay

open Library Wire

/-! ### Publishers -/

theorem RelayState.lookup_of_findPublisherFrom {s : RelayState} {left : Nat} {fields : List Bytes}
    {id : SessionId} {session : MoqtSession}
    (h : s.findPublisherFrom left fields = some (id, session)) :
    s.sessions.lookup id = some session := by
  induction left generalizing fields with
  | zero =>
    unfold RelayState.findPublisherFrom at h
    split at h
    · obtain ⟨_, hsession, heq⟩ := Option.map_eq_some_iff.mp h
      obtain ⟨rfl, rfl⟩ := Prod.mk.inj heq
      exact hsession
    · cases h
  | succ left ih =>
    unfold RelayState.findPublisherFrom at h
    split at h
    · obtain ⟨_, hsession, heq⟩ := Option.map_eq_some_iff.mp h
      obtain ⟨rfl, rfl⟩ := Prod.mk.inj heq
      exact hsession
    · exact ih h

/-- A task keeps its publisher, or has just found it among the sessions. -/
theorem SubscribeStep.publisher {w w' : World} {k : RequestId} {t : SubscribeTask}
    {input : Input} (h : SubscribeStep w k t input w') (ht : w.task k = some t) {j : RequestId}
    {u u' : SubscribeTask} (hu : w.task j = some u) (hu' : w'.task j = some u') :
    u'.publisher = u.publisher ∨ u.pc = .findPublisher ∧ ∃ publisher,
      u'.publisher = some publisher ∧ w.state.sessions.lookup publisher.1 = some publisher.2 := by
  by_cases hjk : j = k
  · subst hjk
    obtain rfl := Option.mem_unique ht hu
    cases h with
    | @found hpc _ publisher hfound =>
      obtain rfl := Option.mem_unique (World.task_update_self _ ht) hu'
      exact .inr ⟨hpc, publisher, rfl, RelayState.lookup_of_findPublisherFrom hfound⟩
    | @notify _ done hdone r rs htodo ok =>
      left
      by_cases hjr : j = r
      · subst hjr
        simp [ht] at hu'
        rw [← hu', SubscribeTask.wrote_publisher]
      · simp [ht, hjr] at hu'
        rw [← hu']
    | _ =>
      left
      simp [ht] at hu'
      simp [← hu']
  · left
    obtain ⟨u₁, hu₁, hagree⟩ := h.other hjk hu
    obtain rfl := Option.mem_unique hu' hu₁
    exact hagree.publisher

/-- The publishers that the tasks have found were sessions. -/
def PublishersKnown (w : World) : Prop :=
  ∀ (j : RequestId) (t : SubscribeTask), w.task j = some t →
    ∀ publisher ∈ t.publisher, publisher.1 < w.state.nextSessionId

theorem PublishersKnown.step {w w' : World} {l : Label} (h : PublishersKnown w) (hids : Ids w)
    (hstep : Step w l w') : PublishersKnown w' := by
  intro j u' hu' publisher hpublisher
  refine Nat.lt_of_lt_of_le ?_ hstep.stateStep.nextSessionId_le
  rcases hstep.before hu' with ⟨u, hu⟩ | ⟨session, message, rfl⟩
  · have same (hsame : u'.publisher = u.publisher) : publisher.1 < w.state.nextSessionId := by
      rw [hsame] at hpublisher
      exact h j u hu publisher hpublisher
    have hj := hstep.task j
    rw [hu, hu'] at hj
    cases hj with
    | kept hagree => exact same hagree.publisher
    | moved hl hagree hmove =>
      subst hl
      cases hstep with
      | subscribe ht hs =>
        rcases hs.publisher ht hu hu' with hsame | ⟨-, found, hfound, hsession⟩
        · exact same hsame
        · obtain rfl := Option.mem_unique hpublisher hfound
          exact hids.sessions _ (Map.mem_iff_lookup.mpr ⟨_, hsession⟩)
  · cases hpublisher

/-! ### Entries -/

/-- What a step makes of an entry of the map: it keeps the entry of the same upstream subscription,
or it removes a session and the entry with it. -/
theorem Step.entry {w w' : World} {l : Label} (h : Step w l w') {track : FullTrackName}
    {sub : Subscription} (hsub : w.state.subscriptions.lookup track = some sub) :
    (∃ sub', w'.state.subscriptions.lookup track = some sub' ∧
      sub'.subscribeOk = sub.subscribeOk) ∨
      ∃ c conn, l = .removeSession c ∧ w.connections[c]? = some conn ∧
        w'.state = w.state.removeSession conn.sessionId ∧
        RelayState.keepWithout conn.sessionId sub = none := by
  have pushed (track₁ : FullTrackName) (existing : Subscription) (entry : SubscriberEntry)
      (hexisting : w.state.subscriptions.lookup track₁ = some existing) :
      ∃ sub', (w.state.pushSubscriber track₁ existing entry).subscriptions.lookup track =
        some sub' ∧ sub'.subscribeOk = sub.subscribeOk := by
    by_cases heq : track = track₁
    · subst heq
      obtain rfl := Option.mem_unique hsub hexisting
      exact ⟨_, RelayState.lookup_pushSubscriber.mpr (.inl ⟨rfl, rfl⟩), rfl⟩
    · exact ⟨sub, RelayState.lookup_pushSubscriber.mpr (.inr ⟨heq, hsub⟩), rfl⟩
  have hstate := h.stateStep
  generalize w'.state = s at hstate ⊢
  cases hstate with
  | @removeSession c conn hconn =>
    cases hkeep : RelayState.keepWithout conn.sessionId sub with
    | none => exact .inr ⟨c, conn, rfl, hconn, rfl, hkeep⟩
    | some sub' =>
      left
      refine ⟨sub', RelayState.lookup_removeSession_subscriptions.mpr ⟨sub, hsub, hkeep⟩, ?_⟩
      obtain ⟨-, rfl, -⟩ := RelayState.keepWithout_eq_some.mp hkeep
      rfl
  | trackLock track₁ =>
    left
    unfold RelayState.trackLock
    split <;> exact ⟨sub, hsub, rfl⟩
  | pushSubscriber ht hpc htrack hexisting => exact .inl (pushed _ _ _ hexisting)
  | @addSubscriber k t track₁ publisher answer ht hpc htrack hpublisher hanswer =>
    left
    cases hlookup : w.state.subscriptions.lookup track₁ with
    | some existing =>
      rw [RelayState.addSubscriber_existing hlookup]
      exact pushed _ _ _ hlookup
    | none =>
      rw [RelayState.addSubscriber_vacant hlookup]
      refine ⟨sub, RelayState.lookup_pushSubscriber.mpr (.inr ⟨?_, hsub⟩), rfl⟩
      rintro rfl
      rw [hsub] at hlookup
      cases hlookup
  | _ => exact .inl ⟨sub, hsub, rfl⟩

/-! ### Upstream subscriptions that are held -/

/-- The upstream subscription has been answered and recorded, and the task waits for its
PUBLISH_DONE, or is about to. -/
def SubscribePc.holding : SubscribePc → Bool
  | .forwardOk | .awaitDone => true
  | _ => false

theorem SubscribePc.not_holding_of_early {pc : SubscribePc} (h : pc.early = true) :
    pc.holding = false := by
  cases pc <;> first | rfl | cases h

theorem SubscribePc.not_holding_of_searching {pc : SubscribePc} (h : pc.searching = true) :
    pc.holding = false := by
  cases pc <;> first | rfl | cases h

/-- A session that is removed takes no entry with it for want of subscribers while the task of the
upstream subscription still waits. -/
def KeepsHeld (w : World) : Label → Prop
  | .removeSession c => ∀ conn ∈ w.connections[c]?, ∀ x ∈ w.state.subscriptions.entries,
      x.2.publisherSession ≠ conn.sessionId →
        RelayState.keepWithout conn.sessionId x.2 = none →
          ∀ t ∈ w.task x.2.subscribeOk.upstream, t.pc.holding = false
  | _ => True

instance (w : World) (l : Label) : Decidable (KeepsHeld w l) :=
  match l with
  | .removeSession c => inferInstanceAs (Decidable (∀ conn ∈ w.connections[c]?,
      ∀ x ∈ w.state.subscriptions.entries, x.2.publisherSession ≠ conn.sessionId →
        RelayState.keepWithout conn.sessionId x.2 = none →
          ∀ t ∈ w.task x.2.subscribeOk.upstream, t.pc.holding = false))
  | .connect | .event _ _ | .eventError _ | .publishNamespace _ _ | .subscribe _ _
  | .dataStream _ _ => isTrue trivial

/-- The task `k` holds an upstream subscription for the track at the publisher. -/
structure SubscribeTask.HoldsAt (t : SubscribeTask) (publisher : SessionId)
    (track : FullTrackName) : Prop where
  pc : t.pc.holding = true
  track : t.track = some track
  publisher : ∃ session, t.publisher = some (publisher, session)

/-- What is held at a session is the subscription of the track's entry. -/
def HeldListed (w : World) : Prop :=
  ∀ (k : RequestId) (t : SubscribeTask) (publisher : SessionId) (track : FullTrackName),
    w.task k = some t → t.HoldsAt publisher track → publisher ∈ w.state.sessions →
      ∃ sub, w.state.subscriptions.lookup track = some sub ∧ sub.subscribeOk.upstream = k

/-- The task that records its subscription has the entry of the track. -/
theorem SubscribeStep.recorded {w w' : World} {k : RequestId} {t : SubscribeTask} {input : Input}
    (h : SubscribeStep w k t input w') (ht : w.task k = some t) (hlife : Lifecycle w)
    (hpc : t.pc = .record) {track : FullTrackName} (htrack : t.track = some track) :
    ∃ sub, w'.state.subscriptions.lookup track = some sub ∧ sub.subscribeOk.upstream = k := by
  cases h with
  | record _ htrack₁ hpublisher hanswer hfree =>
    obtain rfl := Option.mem_unique htrack htrack₁
    have hvacant := hlife.locks.vacant k t track ht (by rw [hpc]; rfl) htrack
    obtain ⟨ok, hok⟩ := (hlife.formed k t ht).own (by rw [hpc]; rfl)
    obtain rfl := Option.mem_unique hanswer hok
    show ∃ sub, (w.state.addSubscriber _ _ _ _ _).subscriptions.lookup track = some sub ∧ _
    rw [RelayState.addSubscriber_vacant hvacant]
    exact ⟨_, RelayState.lookup_pushSubscriber.mpr (.inl ⟨rfl, rfl⟩), rfl⟩
  | silent _ h => simp [SilentExit, hpc] at h
  | _ => simp_all

/-- An upstream subscription that is held was held before, or the step records it. -/
theorem Step.held {w w' : World} {l : Label} (h : Step w l w') (hlife : Lifecycle w)
    {k : RequestId} {t' : SubscribeTask} {publisher : SessionId} {track : FullTrackName}
    (ht' : w'.task k = some t') (hholds : t'.HoldsAt publisher track) :
    (∃ t, w.task k = some t ∧ t.HoldsAt publisher track) ∨
      ∃ sub, w'.state.subscriptions.lookup track = some sub ∧ sub.subscribeOk.upstream = k := by
  rcases h.before ht' with ⟨t, ht⟩ | ⟨session, message, rfl⟩
  · have hk := h.task k
    rw [ht, ht'] at hk
    cases hk with
    | kept hagree =>
      refine .inl ⟨t, ht, ?_, ?_, ?_⟩
      · rw [← hagree.pc]
        exact hholds.pc
      · rw [← hagree.track]
        exact hholds.track
      · rw [← hagree.publisher]
        exact hholds.publisher
    | moved hl hagree hmove =>
      obtain ⟨hpc, htrack, hpublisher⟩ := hholds
      rw [hagree.pc] at hpc
      rw [hagree.track] at htrack
      rw [hagree.publisher] at hpublisher
      cases hmove with
      | early hpc₀ hpc' track' =>
        rw [SubscribePc.not_holding_of_early hpc'] at hpc
        cases hpc
      | search hpc₀ hpc' publisher' upstreamRequest =>
        rw [SubscribePc.not_holding_of_searching hpc'] at hpc
        cases hpc
      | record hpc₀ =>
        subst hl
        cases h with
        | subscribe ht₀ hs =>
          obtain rfl := Option.mem_unique ht ht₀
          exact .inr (hs.recorded ht hlife hpc₀ htrack)
      | forwarded hpc₀ => exact .inl ⟨t, ht, by rw [hpc₀]; rfl, htrack, hpublisher⟩
      | notify hpc₀ htodo =>
        rw [hpc₀] at hpc
        cases hpc
      | _ => cases hpc
  · cases hholds.pc

theorem HeldListed.step {w w' : World} {l : Label} (h : HeldListed w) (hlife : Lifecycle w)
    (hknown : PublishersKnown w) (hkeeps : KeepsHeld w l) (hstep : Step w l w') :
    HeldListed w' := by
  intro k t' publisher track ht' hholds' hmem'
  rcases hstep.held hlife ht' hholds' with ⟨t, ht, hholds⟩ | hrecorded
  · obtain ⟨session, hpublisher⟩ := hholds.publisher
    have hmem : publisher ∈ w.state.sessions := by
      rcases hstep.stateStep.mem_sessions hmem' with hmem | ⟨rfl, -⟩
      · exact hmem
      · exact absurd (hknown k t ht _ hpublisher) (Nat.lt_irrefl _)
    obtain ⟨sub, hsub, hk⟩ := h k t publisher track ht hholds hmem
    rcases hstep.entry hsub with ⟨sub', hsub', hsame⟩ | ⟨c, conn, rfl, hconn, hstate, hdropped⟩
    · exact ⟨sub', hsub', by rw [hsame, hk]⟩
    · -- the publisher is still there, so that the entry went with its last subscriber
      obtain ⟨-, owner, session₁, ho, -, hsame, -⟩ := hlife.upstreams.owner track sub hsub
      rw [hk] at ho
      obtain rfl := Option.mem_unique ht ho
      rw [hpublisher] at hsame
      obtain ⟨rfl, -⟩ := Prod.mk.inj (Option.some.inj hsame)
      rw [hstate] at hmem'
      have hne := (RelayState.mem_removeSession.mp hmem').2
      have hfree := hkeeps conn hconn ⟨track, sub⟩ (Map.lookup_eq_some_iff.mp hsub) hne hdropped t
        (by rw [hk]; exact ht)
      rw [hholds.pc] at hfree
      cases hfree
  · exact hrecorded

/-- What a run keeps in which no entry goes while its upstream subscription is held. -/
structure Accounted (w : World) : Prop where
  lifecycle : Lifecycle w
  ids : Ids w
  known : PublishersKnown w
  held : HeldListed w

theorem Accounted.new : Accounted .new where
  lifecycle := .new
  ids := .init
  known j _ ht := absurd ht (World.not_task_new j)
  held j _ _ _ ht := absurd ht (World.not_task_new j)

theorem Accounted.step {w w' : World} {l : Label} (h : Accounted w) (hkeeps : KeepsHeld w l)
    (hstep : Step w l w') : Accounted w' where
  lifecycle := h.lifecycle.step hstep
  ids := h.ids.step hstep
  known := h.known.step h.ids hstep
  held := h.held.step h.lifecycle h.known hkeeps hstep

/-- The task has the SUBSCRIBE_OK of an upstream subscription for the track at the publisher that
has not ended; it is recorded, or about to be. -/
def SubscribeTask.EstablishedAt (t : SubscribeTask) (publisher : SessionId)
    (track : FullTrackName) : Prop :=
  (t.pc = .record ∨ t.pc.holding = true) ∧ t.track = some track ∧
    ∃ session, t.publisher = some (publisher, session)

/-- Every upstream subscription that is held at a session is that of the entry of its track, and a
track has at most one upstream subscription at the sessions. -/
structure NoOrphans (w : World) : Prop where
  entry : ∀ (k : RequestId) (t : SubscribeTask) (publisher : SessionId) (track : FullTrackName),
    w.task k = some t → t.HoldsAt publisher track → publisher ∈ w.state.sessions →
      ∃ sub, w.state.subscriptions.lookup track = some sub ∧ sub.publisherSession = publisher ∧
        ∃ ok, t.subscribeOk = some ⟨k, ok⟩ ∧ sub.publisherTrackAlias = ok.trackAlias
  atMostOne : ∀ (j k : RequestId) (u t : SubscribeTask) (publisher publisher' : SessionId)
    (track : FullTrackName), w.task j = some u → w.task k = some t →
      u.EstablishedAt publisher track → t.EstablishedAt publisher' track →
        publisher ∈ w.state.sessions → publisher' ∈ w.state.sessions → j = k

theorem Accounted.not_both {w : World} (h : Accounted w) {j k : RequestId} {u t : SubscribeTask}
    {publisher : SessionId} {track : FullTrackName} (hu : w.task j = some u)
    (ht : w.task k = some t) (hpc : u.pc = .record) (htrack : u.track = some track)
    (hholds : t.HoldsAt publisher track) (hmem : publisher ∈ w.state.sessions) : False := by
  have hvacant := h.lifecycle.locks.vacant j u track hu (by rw [hpc]; rfl) htrack
  obtain ⟨sub, hsub, -⟩ := h.held k t publisher track ht hholds hmem
  rw [hvacant] at hsub
  cases hsub

theorem Accounted.atMostOne {w : World} (h : Accounted w) {j k : RequestId} {u t : SubscribeTask}
    {publisher publisher' : SessionId} {track : FullTrackName} (hu : w.task j = some u)
    (ht : w.task k = some t) (hestu : u.EstablishedAt publisher track)
    (hestt : t.EstablishedAt publisher' track) (hmem : publisher ∈ w.state.sessions)
    (hmem' : publisher' ∈ w.state.sessions) : j = k := by
  obtain ⟨hpcu, htracku, hpubu⟩ := hestu
  obtain ⟨hpct, htrackt, hpubt⟩ := hestt
  rcases hpcu with hpcu | hpcu
  · rcases hpct with hpct | hpct
    · exact h.lifecycle.locks.eq_of_recording hu ht (by rw [hpcu]; rfl) (by rw [hpct]; rfl) htracku
        htrackt
    · exact (h.not_both hu ht hpcu htracku ⟨hpct, htrackt, hpubt⟩ hmem').elim
  · rcases hpct with hpct | hpct
    · exact (h.not_both ht hu hpct htrackt ⟨hpcu, htracku, hpubu⟩ hmem).elim
    · obtain ⟨sub, hsub, hj⟩ := h.held j u publisher track hu ⟨hpcu, htracku, hpubu⟩ hmem
      obtain ⟨sub', hsub', hk⟩ := h.held k t publisher' track ht ⟨hpct, htrackt, hpubt⟩ hmem'
      obtain rfl := Option.mem_unique hsub hsub'
      exact hj.symm.trans hk

/-- No upstream subscription is orphaned in any run in which no entry goes for want of subscribers
while the task of its upstream subscription still waits. -/
theorem noOrphans_of_keepsHeld (ls : List Label) (h : relay.Meets KeepsHeld .new ls) :
    NoOrphans (relay.run .new ls) := by
  have haccounted : Accounted (relay.run .new ls) :=
    Machine.invariant .new (fun _ _ _ hw hl hstep => hw.step hl (.of_step hstep)) h
  constructor
  · intro k t publisher track ht hholds hmem
    obtain ⟨sub, hsub, hk⟩ := haccounted.held k t publisher track ht hholds hmem
    obtain ⟨halias, owner, session, ho, -, hpublisher, hok⟩ :=
      haccounted.lifecycle.upstreams.owner track sub hsub
    subst hk
    obtain rfl := Option.mem_unique ht ho
    obtain ⟨session₁, hpublisher₁⟩ := hholds.publisher
    rw [hpublisher] at hpublisher₁
    obtain ⟨rfl, -⟩ := Prod.mk.inj (Option.some.inj hpublisher₁)
    exact ⟨sub, hsub, rfl, sub.subscribeOk.message, hok, halias⟩
  · intro j k u t publisher publisher' track hu ht hestu hestt hmem hmem'
    exact haccounted.atMostOne hu ht hestu hestt hmem hmem'

/-- The only subscriber of a track leaves, and its handler waits on. -/
def abandoned : List Label :=
  [Label.connect, .connect] ++ Schedule.announce 0 0 ⟨[[1]]⟩ ++ Schedule.ask 1 0 ⟨[[1]]⟩ [0x61] ++
    Schedule.fetchUpstream 0 7 ++ [Label.subscribe 0 (.responded 0 true)] ++ Schedule.disconnect 1

theorem not_noOrphans_abandoned : ¬∀ ls, NoOrphans (relay.run .new ls) := by
  intro h
  have hheld : ((relay.run .new abandoned).task 0).map (fun t => (t.pc, t.track, t.publisher)) =
      some (.awaitDone, some ⟨⟨[[1]]⟩, "a"⟩, some (0, ⟨0⟩)) := by decide
  obtain ⟨t, ht, heq⟩ := Option.map_eq_some_iff.mp hheld
  obtain ⟨hpc, htrack, hpublisher⟩ : t.pc = .awaitDone ∧ t.track = some ⟨⟨[[1]]⟩, "a"⟩ ∧
      t.publisher = some (0, ⟨0⟩) := by simpa using heq
  have hvacant : (relay.run .new abandoned).state.subscriptions.lookup ⟨⟨[[1]]⟩, "a"⟩ = none := by
    decide
  obtain ⟨sub, hsub, -⟩ := (h abandoned).entry 0 t 0 _ ht
    ⟨by rw [hpc]; rfl, htrack, ⟨0⟩, hpublisher⟩ (by decide)
  rw [hvacant] at hsub
  cases hsub

/-- One of two subscribers leaves; the upstream subscription of its handler keeps the other one. -/
theorem noOrphans_ownerLeaves : NoOrphans (relay.run .new
    ([Label.connect, .connect, .connect] ++ Schedule.announce 0 0 ⟨[[1]]⟩ ++
      Schedule.ask 1 0 ⟨[[1]]⟩ [0x61] ++ Schedule.fetchUpstream 0 7 ++
      [Label.subscribe 0 (.responded 0 true)] ++ Schedule.ask 2 1 ⟨[[1]]⟩ [0x61] ++
      [Label.subscribe 1 (.responded 1 true)] ++ Schedule.disconnect 1)) :=
  noOrphans_of_keepsHeld _ (by decide)

end Moqt.Relay
