import Moqt.Library.History
import Moqt.Relay.Entry
import Moqt.Relay.Integrity

/-! What is left of the state when everybody has gone.  The lock of a track stays in its map for
ever, and so does a namespace that is registered for a session behind its removal; sessions do
not. -/

namespace Moqt.Relay

open Library Wire

/-- Every registered session has been removed, and no task is running. -/
structure World.Quiescent (w : World) : Prop where
  connections : ∀ conn ∈ w.connections, conn.status = .closed
  publishNamespaces : ∀ t ∈ w.publishNamespaces, t.pc = .returned
  subscribes : ∀ t ∈ w.subscribes, t.pc = .returned
  dataStreams : ∀ t ∈ w.dataStreams, t.pc = .returned

/-- Nothing is left in the maps. -/
structure RelayState.Reclaimed (s : RelayState) : Prop where
  sessions : s.sessions = ∅
  namespaceToPublisher : s.namespaceToPublisher = ∅
  subscriptions : s.subscriptions = ∅
  trackLocks : s.trackLocks = ∅

/-- No SUBSCRIBE comes to the lock of its track. -/
def NeverLocks (w : World) : Label → Prop
  | .subscribe k .proceed => ∀ t ∈ w.task k, t.pc ≠ .trackLock
  | _ => True

instance (w : World) : (l : Label) → Decidable (NeverLocks w l)
  | .subscribe k .proceed => inferInstanceAs (Decidable (∀ t ∈ w.task k, t.pc ≠ .trackLock))
  | .subscribe _ (.opened _) | .subscribe _ (.wrote _) | .subscribe _ (.responded _ _)
  | .subscribe _ (.response _) | .subscribe _ (.object _) | .connect | .event _ _ | .eventError _
  | .removeSession _ | .publishNamespace _ _ | .dataStream _ _ => isTrue trivial

/-! ### Late registrations -/

/-- Notes whether the last registration of each namespace was for a session that had been
removed. -/
def noteRegistration (w : World) (late : TrackNamespace → Bool) : Label → TrackNamespace → Bool
  | .publishNamespace i .proceed =>
    match w.publishNamespaces[i]? with
    | some t =>
      Function.update late t.message.trackNamespace (decide (t.session ∉ w.state.sessions))
    | none => late
  | _ => late

/-- The relay, with what is noted of its registrations. -/
def registering : Machine (World × (TrackNamespace → Bool)) Label :=
  relay.withHistory (fun _ => false) noteRegistration

/-- The last registration of the namespace in the run was for a session that had been removed. -/
def registeredLate (ls : List Label) (ns : TrackNamespace) : Bool :=
  (registering.run registering.init ls).2 ns

section

variable {w w' : World} {l : Label}

/-! ### Sessions -/

/-- Sessions are those of connections that have not been cleaned up. -/
def ClosedGone (w : World) : Prop :=
  ∀ (c : ConnectionId) (conn : Connection), w.connections[c]? = some conn →
    conn.status = .closed → c ∉ w.state.sessions

theorem ClosedGone.step (h : ClosedGone w) (hnumbered : Numbered w) (hstep : Step w l w') :
    ClosedGone w' := by
  intro c conn' hconn' hstatus'
  have gone {conn : Connection} (hconn : w.connections[c]? = some conn)
      (hstatus : conn.status = .closed) : c ∉ w'.state.sessions := by
    have hnot := h c conn hconn hstatus
    cases hstep.sessionsMove with
    | same hconnect hsessions hnext => rwa [hsessions]
    | registered hl hsessions hnext =>
      rw [hsessions, AList.mem_insert, hnumbered.next, not_or]
      have hlt := (List.getElem?_eq_some_iff.mp hconn).1
      exact ⟨Nat.ne_of_lt hlt, hnot⟩
    | removed hl hconn₀ hsessions hnext =>
      rw [hsessions, AList.mem_erase]
      exact fun hmem => hnot hmem.2
  cases hstep.connectionMove hconn' with
  | same hl hconn hid hsame => exact gone hconn (hsame ▸ hstatus')
  | left hl hconn hstatus heq =>
    rw [heq] at hstatus'
    cases hstatus'
  | @removed conn hl hconn hstatus heq =>
    subst hl
    cases hstep with
    | removeSession hconn₀ hstatus₀ hfree =>
      obtain rfl := Option.mem_unique hconn hconn₀
      show c ∉ (w.state.removeSession conn.sessionId).sessions
      rw [RelayState.mem_removeSession, hnumbered.sessionId c conn hconn]
      exact fun hmem => hmem.2 rfl
  | connected hl hc heq =>
    rw [heq] at hstatus'
    cases hstatus'

/-- When everybody has gone there are no sessions. -/
theorem World.Quiescent.sessions_eq_empty (hquiet : w.Quiescent) (hgone : ClosedGone w)
    (hnumbered : Numbered w) (hids : Ids w) : w.state.sessions = ∅ := by
  refine Map.eq_empty_iff.mpr fun id => ?_
  rw [← Option.not_isSome_iff_eq_none, AList.lookup_isSome]
  intro hmem
  have hlt := hids.sessions id hmem
  rw [hnumbered.next] at hlt
  have hconn := List.getElem?_eq_getElem hlt
  exact hgone id _ hconn (hquiet.connections _ (List.mem_of_getElem? hconn)) hmem

/-! ### Namespaces -/

/-- The owners in the map have been sessions, and those that are not any more have been registered
late. -/
structure RegistrationsNoted (w : World) (late : TrackNamespace → Bool) : Prop where
  handedOut : ∀ ns owner, w.state.namespaceToPublisher.lookup ns = some owner →
    owner < w.state.nextSessionId
  late : ∀ ns, late ns = true ↔
    ∃ owner, w.state.namespaceToPublisher.lookup ns = some owner ∧ owner ∉ w.state.sessions

theorem RegistrationsNoted.new : RegistrationsNoted .new fun _ => false where
  handedOut _ _ hns := by cases hns
  late ns := by
    constructor
    · nofun
    · rintro ⟨owner, hns, -⟩
      cases hns

theorem noteRegistration_other {late : TrackNamespace → Bool}
    (hl : ∀ i, l ≠ .publishNamespace i .proceed) : noteRegistration w late l = late := by
  unfold noteRegistration
  split
  · exact absurd rfl (hl _)
  · rfl

/-- A SUBSCRIBE has nothing to do with namespaces and sessions. -/
theorem SubscribeStep.namespaces {k : RequestId} {t : SubscribeTask} {input : Input}
    (h : SubscribeStep w k t input w') :
    w'.state.namespaceToPublisher = w.state.namespaceToPublisher ∧
      w'.state.sessions = w.state.sessions ∧ w'.state.nextSessionId = w.state.nextSessionId := by
  cases h with
  | @trackLock hpc track htrack hfree =>
    show (w.state.trackLock track).namespaceToPublisher = _ ∧
      (w.state.trackLock track).sessions = _ ∧ (w.state.trackLock track).nextSessionId = _
    unfold RelayState.trackLock
    split <;> exact ⟨rfl, rfl, rfl⟩
  | _ => exact ⟨rfl, rfl, rfl⟩

theorem RegistrationsNoted.step {late : TrackNamespace → Bool} (h : RegistrationsNoted w late)
    (hnumbered : Numbered w) (hids : Ids w) (hstep : Step w l w') :
    RegistrationsNoted w' (noteRegistration w late l) := by
  have same (hl : ∀ i, l ≠ .publishNamespace i .proceed)
      (hnamespaces : w'.state.namespaceToPublisher = w.state.namespaceToPublisher)
      (hsessions : w'.state.sessions = w.state.sessions)
      (hnext : w'.state.nextSessionId = w.state.nextSessionId) :
      RegistrationsNoted w' (noteRegistration w late l) := by
    rw [noteRegistration_other hl]
    constructor
    · rw [hnamespaces, hnext]
      exact h.handedOut
    · rw [hnamespaces, hsessions]
      exact h.late
  cases hstep with
  | connect hfree =>
    have hnote : noteRegistration w late .connect = late := noteRegistration_other nofun
    rw [hnote]
    constructor
    · exact fun ns owner hns => Nat.lt_succ_of_lt (h.handedOut ns owner hns)
    · intro ns
      rw [h.late ns]
      refine exists_congr fun owner => and_congr_right fun hns => not_congr ?_
      -- the new session is no owner yet
      have hne : owner ≠ w.state.nextSessionId := Nat.ne_of_lt (h.handedOut ns owner hns)
      show _ ↔ owner ∈ (w.state.registerSession _).1.sessions
      rw [RelayState.mem_registerSession]
      exact (or_iff_right hne).symm
  | event hconn hstatus event => cases event <;> exact same nofun rfl rfl rfl
  | @removeSession c conn hconn hstatus hfree =>
    have hnote : noteRegistration w late (.removeSession c) = late := noteRegistration_other nofun
    rw [hnote]
    have hmem : conn.sessionId ∈ w.state.sessions := by
      rw [hnumbered.sessionId c conn hconn]
      exact hnumbered.registered c conn hconn (by rw [hstatus]; nofun)
    constructor
    · intro ns owner hns
      exact h.handedOut ns owner (RelayState.lookup_removeSession_namespaces.mp hns).1
    · intro ns
      rw [h.late ns]
      refine exists_congr fun owner => ?_
      show _ ↔ (w.state.removeSession conn.sessionId).namespaceToPublisher.lookup ns = some owner ∧
        owner ∉ (w.state.removeSession conn.sessionId).sessions
      rw [RelayState.lookup_removeSession_namespaces, RelayState.mem_removeSession]
      constructor
      · rintro ⟨hns, hnot⟩
        have hne : owner ≠ conn.sessionId := fun heq => hnot (heq ▸ hmem)
        exact ⟨⟨hns, hne⟩, fun hstill => hnot hstill.1⟩
      · rintro ⟨⟨hns, hne⟩, hnot⟩
        exact ⟨hns, fun hstill => hnot ⟨hstill, hne⟩⟩
  | @register i t ht hpc hfree =>
    have hnote : noteRegistration w late (.publishNamespace i .proceed) =
        Function.update late t.message.trackNamespace (decide (t.session ∉ w.state.sessions)) := by
      simp only [noteRegistration, ht]
    rw [hnote]
    have hlookup (ns : TrackNamespace) :
        (w.state.registerNamespace t.message.trackNamespace t.session).namespaceToPublisher.lookup
          ns = if ns = t.message.trackNamespace then some t.session
            else w.state.namespaceToPublisher.lookup ns := Map.lookup_insert_eq _ _ _ _
    constructor
    · intro ns owner hns
      change (w.state.registerNamespace t.message.trackNamespace
        t.session).namespaceToPublisher.lookup ns = some owner at hns
      rw [hlookup] at hns
      split at hns
      · obtain rfl := Option.some.inj hns
        exact hids.namespaces i t ht
      · exact h.handedOut ns owner hns
    · intro ns
      show _ ↔ ∃ owner, (w.state.registerNamespace t.message.trackNamespace
        t.session).namespaceToPublisher.lookup ns = some owner ∧ owner ∉ w.state.sessions
      rw [hlookup]
      by_cases hns : ns = t.message.trackNamespace
      · rw [hns, Function.update_self, if_pos rfl, decide_eq_true_iff]
        constructor
        · exact fun hnot => ⟨_, rfl, hnot⟩
        · rintro ⟨owner, heq, hnot⟩
          rwa [Option.some.inj heq]
      · rw [Function.update_of_ne hns, if_neg hns]
        exact h.late ns
  | dataStream ht hs =>
    rw [hs.frame] at same ⊢
    exact same nofun rfl rfl rfl
  | subscribe ht hs => exact same nofun hs.namespaces.1 hs.namespaces.2.1 hs.namespaces.2.2
  | _ => exact same nofun rfl rfl rfl

/-! ### Track locks and subscriptions -/

theorem RelayState.mem_trackLock {s : RelayState} {track track' : FullTrackName} :
    track' ∈ (s.trackLock track).trackLocks ↔ track' = track ∨ track' ∈ s.trackLocks := by
  unfold RelayState.trackLock
  split
  next hsome =>
    have hmem : track ∈ s.trackLocks := Map.mem_iff_lookup.mpr ⟨_, hsome⟩
    constructor
    · exact .inr
    · rintro (rfl | hmem')
      · exact hmem
      · exact hmem'
  · exact AList.mem_insert _

/-- A track keeps its lock. -/
theorem Step.mem_trackLocks (h : Step w l w') {track : FullTrackName}
    (hmem : track ∈ w.state.trackLocks) : track ∈ w'.state.trackLocks := by
  have hstate := h.stateStep
  generalize w'.state = s' at hstate
  cases hstate with
  | trackLock track' => exact RelayState.mem_trackLock.mpr (.inr hmem)
  | _ => exact hmem

/-- A task that has not come to the lock of its track, or has returned. -/
def SubscribePc.unlocked : SubscribePc → Bool
  | .start | .rejectFilter | .trackLock | .returned => true
  | _ => false

/-- No task has come to the lock of its track. -/
structure Unlocked (w : World) : Prop where
  tasks : ∀ (k : RequestId) (t : SubscribeTask), w.task k = some t → t.pc.unlocked = true
  subscriptions : w.state.subscriptions = ∅
  trackLocks : w.state.trackLocks = ∅

theorem Unlocked.new : Unlocked .new where
  tasks k _ ht := absurd ht (World.not_task_new k)
  subscriptions := rfl
  trackLocks := rfl

theorem Unlocked.step (h : Unlocked w) (hl : NeverLocks w l) (hstep : Step w l w') :
    Unlocked w' := by
  -- a task goes on from `start`, or leaves
  have tasks : ∀ (k : RequestId) (t' : SubscribeTask), w'.task k = some t' →
      t'.pc.unlocked = true := by
    intro k t' ht'
    have hk := hstep.task k
    rw [ht'] at hk
    generalize ho : w.task k = o at hk
    cases hk with
    | spawned session message => rfl
    | kept hagree =>
      rw [hagree.pc]
      exact h.tasks k _ ho
    | @moved t u t' input heq hagree hmove =>
      subst heq
      have hunlocked := h.tasks k t ho
      cases hstep with
      | subscribe ht hs =>
        obtain rfl := Option.mem_unique ht ho
        have stay (f : SubscribeTask → SubscribeTask) := World.task_update_self f ht
        cases hs with
        | unsupported | named | silent =>
          obtain rfl := Option.mem_unique (stay _) ht'
          rfl
        | reject =>
          obtain rfl := Option.mem_unique (World.task_update_self _ (stay _)) ht'
          rfl
        | trackLock hpc => exact absurd hpc (hl _ ht)
        | forwardLast ok hpc =>
          rcases hpc with hpc | ⟨hpc, -⟩ <;> rw [hpc] at hunlocked <;> cases hunlocked
        | _ hpc =>
          rw [hpc] at hunlocked
          cases hunlocked
  have state : w'.state.subscriptions = ∅ ∧ w'.state.trackLocks = ∅ := by
    have same (hsubscriptions : w'.state.subscriptions = w.state.subscriptions)
        (hlocks : w'.state.trackLocks = w.state.trackLocks) :
        w'.state.subscriptions = ∅ ∧ w'.state.trackLocks = ∅ :=
      ⟨hsubscriptions.trans h.subscriptions, hlocks.trans h.trackLocks⟩
    cases hstep with
    | event hconn hstatus event => cases event <;> exact same rfl rfl
    | removeSession hconn hstatus hfree =>
      refine ⟨Map.eq_empty_iff.mpr fun track => ?_, h.trackLocks⟩
      show (w.state.subscriptions.retain _).lookup track = none
      rw [Map.lookup_retain, h.subscriptions]
      rfl
    | dataStream ht hs =>
      rw [hs.frame] at same ⊢
      exact same rfl rfl
    | subscribe ht hs =>
      have hunlocked := h.tasks _ _ ht
      cases hs with
      | trackLock hpc => exact absurd hpc (hl _ ht)
      | join hpc =>
        rw [hpc] at hunlocked
        cases hunlocked
      | record hpc =>
        rw [hpc] at hunlocked
        cases hunlocked
      | _ => exact same rfl rfl
    | _ => exact same rfl rfl
  exact ⟨tasks, state.1, state.2⟩

end

/-! ### Runs -/

/-- A SUBSCRIBE that comes to the lock of its track leaves a lock behind. -/
theorem neverLocks_of_trackLocks_eq_empty {ls : List Label}
    (hempty : (relay.run .new ls).state.trackLocks = ∅) : relay.Meets NeverLocks .new ls := by
  by_contra hmeets
  obtain ⟨ls₁, l, ls₂, rfl, hsome, hnot⟩ := Machine.exists_of_not_meets hmeets
  obtain ⟨w', hstep⟩ := Option.isSome_iff_exists.mp hsome
  rw [Machine.run_append, Machine.run_cons, Machine.next_of_step hstep] at hempty
  have hlock : ∃ track, track ∈ w'.state.trackLocks := by
    unfold NeverLocks at hnot
    split at hnot
    next k =>
      simp only [not_forall, not_not] at hnot
      obtain ⟨t, ht, hpc⟩ := hnot
      cases Step.of_step hstep with
      | subscribe ht₀ hs =>
        obtain rfl := Option.mem_unique ht ht₀
        cases hs with
        | @trackLock hpc' track htrack hfree =>
          exact ⟨track, RelayState.mem_trackLock.mpr (.inl rfl)⟩
        | silent hexit hsilent => simp [SilentExit, hpc] at hsilent
        | _ hpc' =>
          rw [hpc] at hpc'
          cases hpc'
    · exact absurd trivial hnot
  obtain ⟨track, hmem⟩ := hlock
  have hstays : track ∈ (relay.run w' ls₂).state.trackLocks :=
    Machine.keeps (P := fun _ _ => True)
      (fun _ _ _ h _ hstep => (Step.of_step hstep).mem_trackLocks h) hmem
      (Machine.meets_true w' ls₂)
  rw [hempty] at hstays
  exact AList.notMem_empty track hstays

theorem unlocked_of_neverLocks {ls : List Label} (h : relay.Meets NeverLocks .new ls) :
    Unlocked (relay.run .new ls) :=
  relay.invariant .new (fun _ _ _ hI hl hstep => hI.step hl (.of_step hstep)) h

theorem registrationsNoted_of_run (ls : List Label) :
    RegistrationsNoted (relay.run .new ls) (registeredLate ls) := by
  have hnoted : RegistrationsNoted (registering.run registering.init ls).1
      (registering.run registering.init ls).2 := by
    refine (registering.reachable_run ls).induction
      (I := fun x => RegistrationsNoted x.1 x.2) .new ?_
    intro x l x' hx h hstep
    obtain ⟨hstep, hnote⟩ := Machine.withHistory_step.mp hstep
    have hknown := known_of_reachable hx.of_withHistory
    rw [hnote]
    exact h.step hknown.numbered hknown.ids (.of_step hstep)
  rwa [registering, Machine.withHistory_run] at hnoted

theorem closedGone_of_reachable {w : World} (h : relay.Reachable w) : ClosedGone w := by
  refine h.induction (fun c conn hconn => by simp [relay, World.new] at hconn) ?_
  intro w l w' hw hgone hstep
  exact hgone.step (known_of_reachable hw).numbered (.of_step hstep)

/-- When everybody has gone the maps are empty, if and only if no SUBSCRIBE has come to the lock of
its track, and no namespace was last registered for a session that had been removed. -/
theorem reclaimed_iff {ls : List Label} (hquiet : (relay.run .new ls).Quiescent) :
    (relay.run .new ls).state.Reclaimed ↔
      relay.Meets NeverLocks .new ls ∧ ∀ ns, registeredLate ls ns = false := by
  have hknown := known_of_reachable (relay.reachable_run ls)
  have hsessions : (relay.run .new ls).state.sessions = ∅ :=
    hquiet.sessions_eq_empty (closedGone_of_reachable (relay.reachable_run ls)) hknown.numbered
      hknown.ids
  have hlate (ns : TrackNamespace) : registeredLate ls ns = true ↔
      ∃ owner, (relay.run .new ls).state.namespaceToPublisher.lookup ns = some owner := by
    rw [(registrationsNoted_of_run ls).late ns, hsessions]
    exact exists_congr fun owner => and_iff_left (AList.notMem_empty owner)
  constructor
  · intro h
    refine ⟨neverLocks_of_trackLocks_eq_empty h.trackLocks, fun ns => ?_⟩
    rw [← Bool.not_eq_true, hlate ns, h.namespaceToPublisher]
    rintro ⟨owner, hns⟩
    cases hns
  · rintro ⟨hnever, hprompt⟩
    have hunlocked := unlocked_of_neverLocks hnever
    refine ⟨hsessions, Map.eq_empty_iff.mpr fun ns => ?_, hunlocked.subscriptions,
      hunlocked.trackLocks⟩
    by_contra hsome
    have htrue := (hlate ns).mpr (Option.ne_none_iff_exists'.mp hsome)
    rw [hprompt ns] at htrue
    cases htrue

/-- A SUBSCRIBE for a track that nobody publishes is rejected, and its session goes. -/
def rejectedAndGone : List Label :=
  Label.connect :: Schedule.ask 0 0 ⟨[[1]]⟩ [0x61] ++
    [Label.subscribe 0 .proceed, .subscribe 0 (.responded 0 true)] ++ Schedule.disconnect 0

instance (w : World) : Decidable w.Quiescent :=
  decidable_of_iff ((∀ conn ∈ w.connections, conn.status = .closed) ∧
    (∀ t ∈ w.publishNamespaces, t.pc = .returned) ∧ (∀ t ∈ w.subscribes, t.pc = .returned) ∧
    ∀ t ∈ w.dataStreams, t.pc = .returned)
    ⟨fun ⟨hc, hn, hs, hd⟩ => ⟨hc, hn, hs, hd⟩, fun ⟨hc, hn, hs, hd⟩ => ⟨hc, hn, hs, hd⟩⟩

theorem not_reclaimed_rejectedAndGone :
    ¬∀ ls, (relay.run .new ls).Quiescent → (relay.run .new ls).state.Reclaimed := by
  intro h
  have hempty := (h rejectedAndGone (by decide)).trackLocks
  have hlock : (relay.run .new rejectedAndGone).state.trackLocks.lookup ⟨⟨[[1]]⟩, "a"⟩ =
      some () := by decide
  rw [hempty] at hlock
  cases hlock

/-- A publisher comes, has a namespace accepted, and goes. -/
theorem reclaimed_publisherOnly :
    (relay.run .new ([Label.connect] ++ Schedule.announce 0 0 ⟨[[1]]⟩ ++
      Schedule.disconnect 0)).state.Reclaimed ↔
    relay.Meets NeverLocks .new ([Label.connect] ++ Schedule.announce 0 0 ⟨[[1]]⟩ ++
      Schedule.disconnect 0) ∧
    ∀ ns, registeredLate ([Label.connect] ++ Schedule.announce 0 0 ⟨[[1]]⟩ ++
      Schedule.disconnect 0) ns = false :=
  reclaimed_iff (by decide)

/-- Where the ids that are stored are always ids of sessions, the other three maps are empty when
everybody has gone. -/
theorem reclaimed_of_storesSessions {ls : List Label}
    (hstores : relay.Meets StoresSessions .new ls) (hquiet : (relay.run .new ls).Quiescent) :
    (relay.run .new ls).state.sessions = ∅ ∧
      (relay.run .new ls).state.namespaceToPublisher = ∅ ∧
      (relay.run .new ls).state.subscriptions = ∅ := by
  have hknown := known_of_reachable (relay.reachable_run ls)
  have hsessions := hquiet.sessions_eq_empty (closedGone_of_reachable (relay.reachable_run ls))
    hknown.numbered hknown.ids
  have hintegrity : Integrity (relay.run .new ls).state :=
    relay.invariant (I := fun w => Integrity w.state) .new
      (fun _ _ _ hI hl hstep => hI.step hl hstep) hstores
  refine ⟨hsessions, Map.eq_empty_iff.mpr fun ns => ?_, Map.eq_empty_iff.mpr fun track => ?_⟩
  · refine Option.eq_none_iff_forall_ne_some.mpr fun owner hns => ?_
    have hmem := hintegrity.namespaces ns owner hns
    rw [hsessions] at hmem
    exact AList.notMem_empty owner hmem
  · refine Option.eq_none_iff_forall_ne_some.mpr fun sub hsub => ?_
    have hmem := hintegrity.publishers track sub hsub
    rw [hsessions] at hmem
    exact AList.notMem_empty _ hmem

end Moqt.Relay
