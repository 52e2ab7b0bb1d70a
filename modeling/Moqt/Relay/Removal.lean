import Moqt.Relay.State

/-! What `remove_session` leaves of the state: nothing of the session that is removed, and all of
the others.  Two sessions can be removed in either order. -/

namespace Moqt.Relay

open Library Wire

/-! ### Subscriptions -/

/-- The subscription without the subscribers of the session. -/
def Subscription.without (sub : Subscription) (id : SessionId) : Subscription :=
  { sub with subscribers := sub.subscribers.filter fun e => e.sessionId ≠ id }

/-- The subscription outlives the session: it has another publisher and another subscriber. -/
def Subscription.Outlives (sub : Subscription) (id : SessionId) : Prop :=
  sub.publisherSession ≠ id ∧ ∃ e ∈ sub.subscribers, e.sessionId ≠ id

namespace RelayState

theorem keepWithout_iff {id : SessionId} {sub sub' : Subscription} :
    keepWithout id sub = some sub' ↔ sub.Outlives id ∧ sub' = sub.without id := by
  rw [keepWithout_eq_some]
  constructor
  · rintro ⟨hpublisher, rfl, hne⟩
    obtain ⟨e, he⟩ := List.exists_mem_of_ne_nil _ hne
    obtain ⟨hmem, hother⟩ := List.mem_filter.mp he
    exact ⟨⟨hpublisher, e, hmem, by simpa using hother⟩, rfl⟩
  · rintro ⟨⟨hpublisher, e, he, hother⟩, rfl⟩
    refine ⟨hpublisher, rfl, List.ne_nil_of_mem (a := e) ?_⟩
    exact List.mem_filter.mpr ⟨he, by simpa using hother⟩

theorem without_comm (sub : Subscription) (a b : SessionId) :
    (sub.without a).without b = (sub.without b).without a := by
  simp only [Subscription.without, List.filter_filter, Bool.and_comm]

theorem without_idem (sub : Subscription) (a : SessionId) :
    (sub.without a).without a = sub.without a := by
  simp [Subscription.without, List.filter_filter]

/-- What outlives two sessions, one after the other. -/
theorem keepWithout_keepWithout {a b : SessionId} {sub sub' : Subscription} :
    (keepWithout a sub).bind (keepWithout b) = some sub' ↔
      sub.publisherSession ≠ a ∧ sub.publisherSession ≠ b ∧
        (∃ e ∈ sub.subscribers, e.sessionId ≠ a ∧ e.sessionId ≠ b) ∧
        sub' = (sub.without a).without b := by
  simp only [Option.bind_eq_some_iff, keepWithout_iff]
  constructor
  · rintro ⟨_, ⟨⟨hpa, -⟩, rfl⟩, ⟨hpb, e, he, hb⟩, rfl⟩
    obtain ⟨he, ha⟩ := List.mem_filter.mp he
    exact ⟨hpa, hpb, ⟨e, he, by simpa using ha, hb⟩, rfl⟩
  · rintro ⟨hpa, hpb, ⟨e, he, ha, hb⟩, rfl⟩
    have hmem : e ∈ (sub.without a).subscribers := List.mem_filter.mpr ⟨he, by simpa using ha⟩
    exact ⟨_, ⟨⟨hpa, e, he, ha⟩, rfl⟩, ⟨hpb, e, hmem, hb⟩, rfl⟩

theorem keepWithout_comm (a b : SessionId) (sub : Subscription) :
    (keepWithout a sub).bind (keepWithout b) = (keepWithout b sub).bind (keepWithout a) := by
  ext sub'
  rw [keepWithout_keepWithout, keepWithout_keepWithout, without_comm]
  constructor
  · rintro ⟨ha, hb, ⟨e, he, hea, heb⟩, heq⟩
    exact ⟨hb, ha, ⟨e, he, heb, hea⟩, heq⟩
  · rintro ⟨hb, ha, ⟨e, he, heb, hea⟩, heq⟩
    exact ⟨ha, hb, ⟨e, he, hea, heb⟩, heq⟩

theorem keepWithout_idem (a : SessionId) (sub : Subscription) :
    (keepWithout a sub).bind (keepWithout a) = keepWithout a sub := by
  ext sub'
  rw [keepWithout_keepWithout, keepWithout_iff, without_idem]
  constructor
  · rintro ⟨ha, -, ⟨e, he, hea, -⟩, heq⟩
    exact ⟨⟨ha, e, he, hea⟩, heq⟩
  · rintro ⟨⟨ha, e, he, hea⟩, heq⟩
    exact ⟨ha, ha, ⟨e, he, hea, hea⟩, heq⟩

/-! ### The state -/

/-- The session is known to one of the maps. -/
def Mentions (s : RelayState) (id : SessionId) : Prop :=
  id ∈ s.sessions ∨ (∃ ns, s.namespaceToPublisher.lookup ns = some id) ∨
    ∃ track sub, s.subscriptions.lookup track = some sub ∧
      (sub.publisherSession = id ∨ ∃ e ∈ sub.subscribers, e.sessionId = id)

/-- `s'` is `s` without the session `id`, and otherwise the same. -/
structure RemovesExactly (s : RelayState) (id : SessionId) (s' : RelayState) : Prop where
  gone : ¬s'.Mentions id
  sessions : ∀ a, a ≠ id → s'.sessions.lookup a = s.sessions.lookup a
  namespaces : ∀ ns owner, owner ≠ id →
    (s'.namespaceToPublisher.lookup ns = some owner ↔
      s.namespaceToPublisher.lookup ns = some owner)
  subscriptions : ∀ track sub', s'.subscriptions.lookup track = some sub' ↔
    ∃ sub, s.subscriptions.lookup track = some sub ∧ sub.Outlives id ∧ sub' = sub.without id
  served : ∀ track sub', s'.subscriptions.lookup track = some sub' → sub'.subscribers ≠ []
  nextSessionId : s'.nextSessionId = s.nextSessionId
  trackLocks : s'.trackLocks = s.trackLocks

theorem removesExactly_removeSession (s : RelayState) (id : SessionId) :
    s.RemovesExactly id (s.removeSession id) where
  gone := by
    rintro (hmem | ⟨ns, hns⟩ | ⟨track, sub', hsub', hmention⟩)
    · exact (mem_removeSession.mp hmem).2 rfl
    · exact (lookup_removeSession_namespaces.mp hns).2 rfl
    · obtain ⟨sub, -, hkeep⟩ := lookup_removeSession_subscriptions.mp hsub'
      obtain ⟨⟨hpublisher, -⟩, rfl⟩ := keepWithout_iff.mp hkeep
      rcases hmention with hpub | ⟨e, he, heq⟩
      · exact hpublisher hpub
      · have hother := (List.mem_filter.mp he).2
        simp [heq] at hother
  sessions a hne := by rw [lookup_removeSession_sessions, if_neg hne]
  namespaces ns owner hne := by
    rw [lookup_removeSession_namespaces]
    exact and_iff_left hne
  subscriptions track sub' := by simp only [lookup_removeSession_subscriptions, keepWithout_iff]
  served track sub' hsub' := by
    obtain ⟨sub, -, hkeep⟩ := lookup_removeSession_subscriptions.mp hsub'
    exact (keepWithout_eq_some.mp hkeep).2.2
  nextSessionId := rfl
  trackLocks := rfl

theorem removeSession_idem (s : RelayState) (a : SessionId) :
    (s.removeSession a).removeSession a = s.removeSession a := by
  simp only [removeSession, Map.erase_idem, Map.retain_retain, keepWithout_idem, mk.injEq,
    and_true, true_and]
  apply Map.retain_congr
  intro ns owner
  split <;> simp [*]

theorem removeSession_comm (s : RelayState) (a b : SessionId) :
    (s.removeSession a).removeSession b = (s.removeSession b).removeSession a := by
  simp only [removeSession, AList.erase_erase a b, Map.retain_retain, keepWithout_comm a b,
    mk.injEq, and_true, true_and]
  apply Map.retain_congr
  intro ns owner
  by_cases ha : owner = a
  · subst ha
    by_cases hb : owner = b <;> simp [hb]
  · by_cases hb : owner = b <;> simp [ha, hb]

/-- `remove_session` takes the session out of the state and nothing else, a second time nothing at
all, and of two sessions it does not matter which goes first. -/
theorem removeSession_exact (s : RelayState) (a b : SessionId) :
    s.RemovesExactly a (s.removeSession a) ∧
      (s.removeSession a).removeSession a = s.removeSession a ∧
      (s.removeSession a).removeSession b = (s.removeSession b).removeSession a :=
  ⟨s.removesExactly_removeSession a, s.removeSession_idem a, s.removeSession_comm a b⟩

end RelayState

end Moqt.Relay
