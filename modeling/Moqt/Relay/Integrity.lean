import Moqt.Relay.Step

/-! What the shared state says about sessions.  The tasks that a connection spawns outlive it, and
the relay does not look again whether a session is still there before it stores its id; both
results are about the runs in which it is. -/

namespace Moqt.Relay

open Library Wire

/-! ### Session ids are sessions -/

/-- Every session id in the state is the id of a session, and ids are handed out in order. -/
structure Integrity (s : RelayState) : Prop where
  namespaces : ∀ n owner, s.namespaceToPublisher.lookup n = some owner → owner ∈ s.sessions
  publishers : ∀ track sub, s.subscriptions.lookup track = some sub →
    sub.publisherSession ∈ s.sessions
  subscribers : ∀ track sub, s.subscriptions.lookup track = some sub →
    ∀ e ∈ sub.subscribers, e.sessionId ∈ s.sessions
  ids : ∀ id ∈ s.sessions, id < s.nextSessionId

namespace Integrity

variable {s : RelayState}

theorem new : Integrity .new where
  namespaces _ _ h := by cases h
  publishers _ _ h := by cases h
  subscribers _ _ h := by cases h
  ids _ h := by cases h

theorem registerSession (h : Integrity s) (session : MoqtSession) :
    Integrity (s.registerSession session).1 where
  namespaces n owner hn := RelayState.mem_registerSession.mpr (.inr (h.namespaces n owner hn))
  publishers track sub hsub :=
    RelayState.mem_registerSession.mpr (.inr (h.publishers track sub hsub))
  subscribers track sub hsub e he :=
    RelayState.mem_registerSession.mpr (.inr (h.subscribers track sub hsub e he))
  ids id hid := by
    rcases RelayState.mem_registerSession.mp hid with rfl | hid
    · exact Nat.lt_succ_self _
    · exact Nat.lt_succ_of_lt (h.ids id hid)

theorem removeSession (h : Integrity s) (id : SessionId) : Integrity (s.removeSession id) where
  namespaces n owner hn := by
    obtain ⟨hn, hne⟩ := RelayState.lookup_removeSession_namespaces.mp hn
    exact RelayState.mem_removeSession.mpr ⟨h.namespaces n owner hn, hne⟩
  publishers track sub' hsub' := by
    obtain ⟨sub, hsub, hkeep⟩ := RelayState.lookup_removeSession_subscriptions.mp hsub'
    obtain ⟨hne, rfl, -⟩ := RelayState.keepWithout_eq_some.mp hkeep
    exact RelayState.mem_removeSession.mpr ⟨h.publishers track sub hsub, hne⟩
  subscribers track sub' hsub' e he := by
    obtain ⟨sub, hsub, hkeep⟩ := RelayState.lookup_removeSession_subscriptions.mp hsub'
    obtain ⟨-, rfl, -⟩ := RelayState.keepWithout_eq_some.mp hkeep
    obtain ⟨he, hne⟩ := List.mem_filter.mp he
    exact RelayState.mem_removeSession.mpr ⟨h.subscribers track sub hsub e he, by simpa using hne⟩
  ids a ha := h.ids a (RelayState.mem_removeSession.mp ha).1

theorem registerNamespace (h : Integrity s) (ns : TrackNamespace) {id : SessionId}
    (hid : id ∈ s.sessions) : Integrity (s.registerNamespace ns id) where
  namespaces n owner hn := by
    rw [RelayState.registerNamespace, Map.lookup_insert_eq] at hn
    split at hn
    · obtain rfl := Option.some.inj hn
      exact hid
    · exact h.namespaces n owner hn
  publishers := h.publishers
  subscribers := h.subscribers
  ids := h.ids

theorem trackLock (h : Integrity s) (track : FullTrackName) : Integrity (s.trackLock track) := by
  unfold RelayState.trackLock
  split
  · exact h
  · exact ⟨h.namespaces, h.publishers, h.subscribers, h.ids⟩

/-- A subscription whose ids are sessions can be extended by a session. -/
theorem pushSubscriber (h : Integrity s) (track : FullTrackName) {sub : Subscription}
    {entry : SubscriberEntry} (hpublisher : sub.publisherSession ∈ s.sessions)
    (hsubscribers : ∀ e ∈ sub.subscribers, e.sessionId ∈ s.sessions)
    (hentry : entry.sessionId ∈ s.sessions) : Integrity (s.pushSubscriber track sub entry) where
  namespaces := h.namespaces
  publishers track' sub' hsub' := by
    rw [RelayState.pushSubscriber, Map.lookup_insert_eq] at hsub'
    split at hsub'
    · obtain rfl := Option.some.inj hsub'
      exact hpublisher
    · exact h.publishers track' sub' hsub'
  subscribers track' sub' hsub' e he := by
    rw [RelayState.pushSubscriber, Map.lookup_insert_eq] at hsub'
    split at hsub'
    · obtain rfl := Option.some.inj hsub'
      rcases List.mem_append.mp he with he | he
      · exact hsubscribers e he
      · obtain rfl := List.mem_singleton.mp he
        exact hentry
    · exact h.subscribers track' sub' hsub' e he
  ids := h.ids

theorem addSubscriber (h : Integrity s) (track : FullTrackName) {publisher : SessionId}
    {entry : SubscriberEntry} (trackAlias : UInt64) (ok : Received SubscribeOkMessage)
    (hpublisher : publisher ∈ s.sessions) (hentry : entry.sessionId ∈ s.sessions) :
    Integrity (s.addSubscriber track publisher trackAlias ok entry) := by
  cases hsub : s.subscriptions.lookup track with
  | some sub =>
    rw [RelayState.addSubscriber_existing hsub]
    exact h.pushSubscriber track (h.publishers track sub hsub) (h.subscribers track sub hsub) hentry
  | none =>
    rw [RelayState.addSubscriber_vacant hsub]
    exact h.pushSubscriber track hpublisher (by simp) hentry

end Integrity

/-- Whatever the step stores is the id of a session: a namespace is registered by a session, a
subscriber that is added to a subscription is one, and so is the publisher of a new one. -/
def StoresSessions (w : World) : Label → Prop
  | .publishNamespace i _ => ∀ t ∈ w.publishNamespaces[i]?, t.pc = .register →
      t.session ∈ w.state.sessions
  | .subscribe k _ => ∀ t ∈ w.task k, ∀ track ∈ t.track,
      (t.pc = .aggregate → track ∈ w.state.subscriptions → t.session ∈ w.state.sessions) ∧
      (t.pc = .record → t.session ∈ w.state.sessions ∧
        ∀ publisher ∈ t.publisher, publisher.1 ∈ w.state.sessions)
  | _ => True

instance (w : World) : (l : Label) → Decidable (StoresSessions w l)
  | .publishNamespace i _ =>
    inferInstanceAs (Decidable (∀ t ∈ w.publishNamespaces[i]?, _ → t.session ∈ w.state.sessions))
  | .subscribe k _ => inferInstanceAs (Decidable (∀ t ∈ w.task k, ∀ track ∈ t.track, _ ∧ _))
  | .connect | .event _ _ | .eventError _ | .removeSession _ | .dataStream _ _ => isTrue trivial

theorem Integrity.step {w w' : World} {l : Label} (h : Integrity w.state) (hl : StoresSessions w l)
    (hstep : relay.step w l = some w') : Integrity w'.state := by
  have hstate := (Step.of_step hstep).stateStep
  revert hstate
  generalize w'.state = s'
  intro hstate
  cases hstate with
  | same => exact h
  | registerSession => exact h.registerSession _
  | removeSession hconn => exact h.removeSession _
  | registerNamespace ht hpc => exact h.registerNamespace _ (hl _ ht hpc)
  | trackLock track => exact h.trackLock track
  | pushSubscriber ht hpc htrack hexisting =>
    have hmem := Map.mem_iff_lookup.mpr ⟨_, hexisting⟩
    exact h.pushSubscriber _ (h.publishers _ _ hexisting) (h.subscribers _ _ hexisting)
      ((hl _ ht _ htrack).1 hpc hmem)
  | addSubscriber ht hpc htrack hpublisher hanswer =>
    obtain ⟨hsession, hpub⟩ := (hl _ ht _ htrack).2 hpc
    exact h.addSubscriber _ _ _ (hpub _ hpublisher) hsession

/-- In a run that stores only ids of sessions, every stored id stays the id of a session. -/
theorem integrity_of_storesSessions {ls : List Label}
    (h : relay.Meets StoresSessions relay.init ls) : Integrity (relay.run relay.init ls).state :=
  relay.invariant (I := fun w => Integrity w.state) Integrity.new
    (fun _ _ _ hI hl hstep => hI.step hl hstep) h

/-- A session registers a namespace after its connection has been cleaned up. -/
def lateRegistration : List Label :=
  [.connect, .event 0 (.publishNamespace ⟨0, 0, ⟨[[1]]⟩⟩), .eventError 0, .removeSession 0,
    .publishNamespace 0 .proceed]

theorem not_integrity_lateRegistration :
    ¬∀ ls, Integrity (relay.run relay.init ls).state := by
  intro h
  have hlookup : (relay.run relay.init lateRegistration).state.namespaceToPublisher.lookup ⟨[[1]]⟩ =
      some 0 := by decide
  have hmem := (h lateRegistration).namespaces _ _ hlookup
  revert hmem
  decide

/-- The same session in time. -/
theorem integrity_promptRegistration : Integrity (relay.run relay.init
    [.connect, .event 0 (.publishNamespace ⟨0, 0, ⟨[[1]]⟩⟩), .publishNamespace 0 .proceed]).state :=
  integrity_of_storesSessions (by decide)

end Moqt.Relay
