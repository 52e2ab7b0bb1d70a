import Moqt.Relay.Connection
import Moqt.Relay.Routing

/-! What becomes of an accepted PUBLISH_NAMESPACE.  The map has one owner for a namespace; a session
that registers a namespace again takes it from the session that had it, and does not give it back
when it leaves. -/

namespace Moqt.Relay

open Library Wire

/-! ### Ids -/

/-- Every session id that the connections and their tasks know has been handed out. -/
structure Ids (w : World) : Prop where
  sessions : ∀ id ∈ w.state.sessions, id < w.state.nextSessionId
  connections : ∀ (c : ConnectionId) (conn : Connection), w.connections[c]? = some conn →
    conn.sessionId < w.state.nextSessionId
  namespaces : ∀ (i : Nat) (t : PublishNamespaceTask), w.publishNamespaces[i]? = some t →
    t.session < w.state.nextSessionId

theorem StateStep.nextSessionId_le {w : World} {l : Label} {s : RelayState} (h : StateStep w l s) :
    w.state.nextSessionId ≤ s.nextSessionId := by
  cases h with
  | registerSession => exact Nat.le_succ _
  | trackLock track =>
    unfold RelayState.trackLock
    split <;> exact Nat.le_refl _
  | _ => exact Nat.le_refl _

/-- A session that is there after a step was there before it, or has just been registered. -/
theorem StateStep.mem_sessions {w : World} {l : Label} {s : RelayState} (h : StateStep w l s)
    {id : SessionId} (hid : id ∈ s.sessions) : id ∈ w.state.sessions ∨
      id = w.state.nextSessionId ∧ s.nextSessionId = w.state.nextSessionId + 1 := by
  cases h with
  | registerSession =>
    rcases RelayState.mem_registerSession.mp hid with rfl | hid
    · exact .inr ⟨rfl, rfl⟩
    · exact .inl hid
  | removeSession hconn => exact .inl (RelayState.mem_removeSession.mp hid).1
  | trackLock track =>
    left
    unfold RelayState.trackLock at hid
    split at hid <;> exact hid
  | _ => exact .inl hid

/-- A connection keeps its session id, and a new one gets the next. -/
theorem Step.connection {w w' : World} {l : Label} (h : Step w l w') {c : ConnectionId}
    {conn' : Connection} (hc : w'.connections[c]? = some conn') :
    (∃ conn, w.connections[c]? = some conn ∧ conn'.sessionId = conn.sessionId) ∨
      conn'.sessionId = w.state.nextSessionId ∧
        w'.state.nextSessionId = w.state.nextSessionId + 1 := by
  cases h.connectionMove hc with
  | same hl hconn hid hstatus => exact .inl ⟨_, hconn, hid⟩
  | left hl hconn hstatus hconn' => exact .inl ⟨_, hconn, by rw [hconn']⟩
  | removed hl hconn hstatus hconn' => exact .inl ⟨_, hconn, by rw [hconn']⟩
  | connected hl hlast hconn' =>
    subst hl
    cases h.sessionsMove with
    | same hconnect => exact absurd rfl hconnect
    | registered _ hsessions hnext => exact .inr ⟨by rw [hconn'], hnext⟩
    | removed hl => cases hl

/-- Where the task `t'` of a PUBLISH_NAMESPACE comes from. -/
inductive NamespaceOrigin (w w' : World) (i : Nat) (t' : PublishNamespaceTask) : Prop
  | old (h : w.publishNamespaces[i]? = some t')
  | spawned {c : ConnectionId} {conn : Connection} (hconn : w.connections[c]? = some conn)
      (hsession : t'.session = conn.sessionId) (hpc : t'.pc = .register)
      (haccepted : t'.accepted = false)
  | registered {t : PublishNamespaceTask} (ht : w.publishNamespaces[i]? = some t)
      (hpc : t.pc = .register)
      (hstate : w'.state = w.state.registerNamespace t.message.trackNamespace t.session)
      (ht' : t' = { t with pc := .accept })
  | accepted {t : PublishNamespaceTask} (ht : w.publishNamespaces[i]? = some t)
      (hpc : t.pc = .accept) (ok : Bool) (ht' : t' = { t with pc := .returned, accepted := ok })

theorem Step.namespaceOrigin {w w' : World} {l : Label} (h : Step w l w') {i : Nat}
    {t' : PublishNamespaceTask} (ht' : w'.publishNamespaces[i]? = some t') :
    NamespaceOrigin w w' i t' := by
  cases h with
  | event hconn hstatus event =>
    cases event with
    | publishNamespace message =>
      rcases Table.getElem?_concat.mp ht' with ht' | ⟨-, rfl⟩
      · exact .old ht'
      · exact .spawned hconn rfl rfl rfl
    | _ => exact .old ht'
  | @register j t ht hpc hfree =>
    obtain ⟨t₀, ht₀, rfl⟩ := Table.getElem?_modify.mp ht'
    split
    next heq =>
      subst heq
      obtain rfl := Option.mem_unique ht ht₀
      exact .registered ht hpc rfl rfl
    · exact .old ht₀
  | @accept j t ht hpc ok =>
    obtain ⟨t₀, ht₀, rfl⟩ := Table.getElem?_modify.mp ht'
    split
    next heq =>
      subst heq
      obtain rfl := Option.mem_unique ht ht₀
      exact .accepted ht hpc ok rfl
    · exact .old ht₀
  | dataStream ht h =>
    rw [h.frame] at ht'
    exact .old ht'
  | subscribe ht h => cases h <;> exact .old ht'
  | _ => exact .old ht'

theorem Ids.step {w w' : World} {l : Label} (h : Ids w) (hstep : Step w l w') : Ids w' where
  sessions id hid := by
    rcases hstep.stateStep.mem_sessions hid with hid | ⟨rfl, hnext⟩
    · exact Nat.lt_of_lt_of_le (h.sessions id hid) hstep.stateStep.nextSessionId_le
    · rw [hnext]
      exact Nat.lt_succ_self _
  connections c conn' hc := by
    rcases hstep.connection hc with ⟨conn, hconn, heq⟩ | ⟨heq, hnext⟩
    · rw [heq]
      exact Nat.lt_of_lt_of_le (h.connections c conn hconn) hstep.stateStep.nextSessionId_le
    · rw [heq, hnext]
      exact Nat.lt_succ_self _
  namespaces i t' ht' := by
    refine Nat.lt_of_lt_of_le ?_ hstep.stateStep.nextSessionId_le
    cases hstep.namespaceOrigin ht' with
    | old ht => exact h.namespaces i t' ht
    | spawned hconn hsession hpc haccepted =>
      rw [hsession]
      exact h.connections _ _ hconn
    | @registered t ht hpc hstate ht' =>
      subst ht'
      exact h.namespaces i t ht
    | @accepted t ht hpc ok ht' =>
      subst ht'
      exact h.namespaces i t ht

theorem Ids.init : Ids relay.init where
  sessions _ h := by cases h
  connections _ _ h := by simp [relay, World.new] at h
  namespaces _ _ h := by simp [relay, World.new] at h

/-- In every run, with the ids that are stored elsewhere being sessions or not. -/
theorem ids_of_reachable {w : World} (h : relay.Reachable w) : Ids w :=
  h.invariant Ids.init fun _ _ _ hI hstep => hI.step (Step.of_step hstep)

/-! ### Routes -/

/-- Some prefix of the namespace `ns` is registered in the map, by a session that `P` holds of. -/
def Covered (s : RelayState) (P : SessionId → Prop) (ns : TrackNamespace) : Prop :=
  ∃ e ∈ s.namespaceToPublisher.entries, e.1.fields <+: ns.fields ∧ P e.2

instance (s : RelayState) (P : SessionId → Prop) [DecidablePred P] (ns : TrackNamespace) :
    Decidable (Covered s P ns) :=
  inferInstanceAs (Decidable (∃ e ∈ s.namespaceToPublisher.entries, _ ∧ P e.2))

theorem covered_iff {s : RelayState} {P : SessionId → Prop} {ns : TrackNamespace} :
    Covered s P ns ↔ ∃ n owner, n.fields <+: ns.fields ∧
      s.namespaceToPublisher.lookup n = some owner ∧ P owner := by
  simp only [Covered, Map.lookup_eq_some_iff]
  constructor
  · rintro ⟨⟨n, owner⟩, hmem, hprefixed, howner⟩
    exact ⟨n, owner, hprefixed, hmem, howner⟩
  · rintro ⟨n, owner, hprefixed, hmem, howner⟩
    exact ⟨⟨n, owner⟩, hmem, hprefixed, howner⟩

theorem Covered.registerNamespace {s : RelayState} {ns : TrackNamespace}
    (h : Covered s (fun _ => True) ns) (n : TrackNamespace) (id : SessionId) :
    Covered (s.registerNamespace n id) (fun _ => True) ns := by
  rw [covered_iff] at h ⊢
  obtain ⟨n', owner, hprefixed, hlookup, -⟩ := h
  by_cases heq : n' = n
  · exact ⟨n', id, hprefixed,
      by rw [RelayState.registerNamespace, Map.lookup_insert_eq, if_pos heq],
      trivial⟩
  · refine ⟨n', owner, hprefixed, ?_, trivial⟩
    rw [RelayState.registerNamespace, Map.lookup_insert_eq, if_neg heq, hlookup]

/-- The step does not take a route away.  A namespace is registered for a session that is there,
and when a session is removed, every namespace that another session has registered has a prefix in
the map that the removed session does not own. -/
def KeepsRoutes (w : World) : Label → Prop
  | .publishNamespace i _ => ∀ t ∈ w.publishNamespaces[i]?, t.pc = .register →
      t.session ∈ w.state.sessions
  | .removeSession c => ∀ conn ∈ w.connections[c]?, ∀ t ∈ w.publishNamespaces,
      t.pc ≠ .register → t.session ∈ w.state.sessions → t.session ≠ conn.sessionId →
        Covered w.state (fun owner => owner ≠ conn.sessionId) t.message.trackNamespace
  | _ => True

instance (w : World) : (l : Label) → Decidable (KeepsRoutes w l)
  | .publishNamespace i _ =>
    inferInstanceAs (Decidable (∀ t ∈ w.publishNamespaces[i]?, _ → t.session ∈ w.state.sessions))
  | .removeSession c =>
    inferInstanceAs (Decidable (∀ conn ∈ w.connections[c]?, ∀ t ∈ w.publishNamespaces, _ → _ → _ →
      Covered w.state (fun owner => owner ≠ conn.sessionId) t.message.trackNamespace))
  | .connect | .event _ _ | .eventError _ | .subscribe _ _ | .dataStream _ _ => isTrue trivial

/-- What keeps an accepted namespace routed: the owners in the map are sessions, and the namespaces
that the sessions have registered are covered. -/
structure Routes (w : World) : Prop where
  ids : Ids w
  owners : ∀ n owner, w.state.namespaceToPublisher.lookup n = some owner → owner ∈ w.state.sessions
  covered : ∀ t ∈ w.publishNamespaces, t.pc ≠ .register → t.session ∈ w.state.sessions →
    Covered w.state (fun _ => True) t.message.trackNamespace
  accepted : ∀ t ∈ w.publishNamespaces, t.accepted = true → t.pc ≠ .register

theorem Routes.owners_step {w : World} {l : Label} {s : RelayState} (h : Routes w)
    (hl : KeepsRoutes w l) (hstate : StateStep w l s) :
    ∀ n owner, s.namespaceToPublisher.lookup n = some owner → owner ∈ s.sessions := by
  intro n owner hn
  cases hstate with
  | registerSession => exact RelayState.mem_registerSession.mpr (.inr (h.owners n owner hn))
  | removeSession hconn =>
    obtain ⟨hn, hne⟩ := RelayState.lookup_removeSession_namespaces.mp hn
    exact RelayState.mem_removeSession.mpr ⟨h.owners n owner hn, hne⟩
  | registerNamespace ht hpc =>
    rw [RelayState.registerNamespace, Map.lookup_insert_eq] at hn
    split at hn
    · obtain rfl := Option.some.inj hn
      exact hl _ ht hpc
    · exact h.owners n owner hn
  | trackLock track =>
    unfold RelayState.trackLock at hn ⊢
    split at hn <;> exact h.owners n owner hn
  | _ => exact h.owners n owner hn

/-- A namespace that a session had registered before the step is covered after it. -/
theorem Routes.covered_step {w : World} {l : Label} {s : RelayState} (h : Routes w)
    (hl : KeepsRoutes w l) (hstate : StateStep w l s) {t : PublishNamespaceTask}
    (ht : t ∈ w.publishNamespaces) (hpc : t.pc ≠ .register) (hsession : t.session ∈ s.sessions) :
    Covered s (fun _ => True) t.message.trackNamespace := by
  have hbefore : t.session ∈ w.state.sessions := by
    rcases hstate.mem_sessions hsession with hmem | ⟨heq, -⟩
    · exact hmem
    · obtain ⟨i, hi⟩ := List.mem_iff_getElem?.mp ht
      exact absurd (h.ids.namespaces i t hi) (by rw [heq]; exact Nat.lt_irrefl _)
  have hcovered := h.covered t ht hpc hbefore
  cases hstate with
  | removeSession hconn =>
    have hne := (RelayState.mem_removeSession.mp hsession).2
    obtain ⟨n, owner, hprefixed, hlookup, howner⟩ :=
      covered_iff.mp (hl _ hconn t ht hpc hbefore hne)
    exact covered_iff.mpr ⟨n, owner, hprefixed,
      RelayState.lookup_removeSession_namespaces.mpr ⟨hlookup, howner⟩,
      trivial⟩
  | registerNamespace ht hpc => exact hcovered.registerNamespace _ _
  | trackLock track =>
    unfold RelayState.trackLock
    split <;> exact hcovered
  | _ => exact hcovered

theorem Routes.step {w w' : World} {l : Label} (h : Routes w) (hl : KeepsRoutes w l)
    (hstep : Step w l w') : Routes w' where
  ids := h.ids.step hstep
  owners := h.owners_step hl hstep.stateStep
  covered t' ht' hpc' hsession := by
    obtain ⟨i, hi⟩ := List.mem_iff_getElem?.mp ht'
    cases hstep.namespaceOrigin hi with
    | old ht => exact h.covered_step hl hstep.stateStep (List.mem_of_getElem? ht) hpc' hsession
    | spawned hconn hs hpc haccepted => exact absurd hpc hpc'
    | @registered t ht hpc hstate ht' =>
      -- the task has just put its namespace in the map
      subst ht'
      refine covered_iff.mpr ⟨t.message.trackNamespace, t.session, List.prefix_rfl, ?_, trivial⟩
      rw [hstate, RelayState.registerNamespace, Map.lookup_insert_eq, if_pos rfl]
    | @accepted t ht hpc ok ht' =>
      subst ht'
      have hne : t.pc ≠ .register := by rw [hpc]; decide
      exact h.covered_step (t := t) hl hstep.stateStep (List.mem_of_getElem? ht) hne hsession
  accepted t' ht' haccepted := by
    obtain ⟨i, hi⟩ := List.mem_iff_getElem?.mp ht'
    cases hstep.namespaceOrigin hi with
    | old ht => exact h.accepted t' (List.mem_of_getElem? ht) haccepted
    | spawned hconn hs hpc hfalse => simp [hfalse] at haccepted
    | registered ht hpc hstate ht' => simp [ht']
    | accepted ht hpc ok ht' => simp [ht']

/-- Below the namespace of every session whose registration has been accepted, a publisher is
found, and it is a session. -/
def AcceptedRouted (w : World) : Prop :=
  ∀ t ∈ w.publishNamespaces, t.accepted = true → t.session ∈ w.state.sessions →
    ∀ m : TrackNamespace, t.message.trackNamespace.fields <+: m.fields →
      ∃ owner session, w.state.findPublisher m = some (owner, session) ∧ owner ∈ w.state.sessions

theorem Routes.acceptedRouted {w : World} (h : Routes w) : AcceptedRouted w := by
  intro t ht haccepted hsession m hm
  obtain ⟨n, owner, hprefixed, hlookup, -⟩ :=
    covered_iff.mp (h.covered t ht (h.accepted t ht haccepted) hsession)
  exact RelayState.findPublisher_of_registered (hprefixed.trans hm)
    (Map.mem_iff_lookup.mpr ⟨owner, hlookup⟩) h.owners

theorem Routes.init : Routes relay.init where
  ids := ids_of_reachable (relay.reachable_run [])
  owners _ _ h := by cases h
  covered _ h := by cases h
  accepted _ h := by cases h

/-- In a run that takes no route away, no accepted registration of a session is lost. -/
theorem acceptedRouted_of_keepsRoutes {ls : List Label}
    (h : relay.Meets KeepsRoutes relay.init ls) : AcceptedRouted (relay.run relay.init ls) :=
  (relay.invariant Routes.init (fun _ _ _ hI hl hstep => hI.step hl (Step.of_step hstep))
    h).acceptedRouted

/-- Two sessions register a namespace, and the second one leaves. -/
def registeredTwice : List Label :=
  [.connect, .connect, .event 0 (.publishNamespace ⟨0, 0, ⟨[[1]]⟩⟩), .publishNamespace 0 .proceed,
    .publishNamespace 0 (.wrote true), .event 1 (.publishNamespace ⟨0, 0, ⟨[[1]]⟩⟩),
    .publishNamespace 1 .proceed, .publishNamespace 1 (.wrote true), .eventError 1,
    .removeSession 1]

theorem not_acceptedRouted_registeredTwice :
    ¬∀ ls, AcceptedRouted (relay.run relay.init ls) := by
  intro h
  have hnone : (relay.run relay.init registeredTwice).state.findPublisher ⟨[[1]]⟩ = none := by
    decide
  obtain ⟨owner, session, hfound, -⟩ := h registeredTwice
    ⟨0, ⟨0, 0, ⟨[[1]]⟩⟩, .returned, true⟩ (by decide) rfl (by decide) ⟨[[1]]⟩ List.prefix_rfl
  rw [hnone] at hfound
  cases hfound

/-- Two sessions register a namespace and one below it, and the second one leaves. -/
theorem acceptedRouted_nested : AcceptedRouted (relay.run relay.init
    [.connect, .connect, .event 0 (.publishNamespace ⟨0, 0, ⟨[[1]]⟩⟩), .publishNamespace 0 .proceed,
      .publishNamespace 0 (.wrote true), .event 1 (.publishNamespace ⟨0, 0, ⟨[[1], [2]]⟩⟩),
      .publishNamespace 1 .proceed, .publishNamespace 1 (.wrote true), .eventError 1,
      .removeSession 1]) :=
  acceptedRouted_of_keepsRoutes (by decide)

end Moqt.Relay
