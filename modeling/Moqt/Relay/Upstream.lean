import Moqt.Relay.Lifecycle

/-! Track locks and upstream subscriptions.  The lock of a track is held by the one task that may
record a subscription for it; a recorded subscription belongs to the task that sent its upstream
SUBSCRIBE. -/

namespace Moqt.Relay

open Library Wire

/-! ### Track locks -/

theorem World.trackGuard_dropTrackGuard {w : World} {k j : RequestId} {track : FullTrackName}
    (h : w.trackGuard track = some j) :
    (w.dropTrackGuard k).trackGuard track = some j ∨ j = k := by
  by_cases hjk : j = k
  · exact .inr hjk
  · left
    show (if w.trackGuard track = some k then none else w.trackGuard track) = some j
    rw [h, if_neg fun heq => hjk (Option.some.inj heq)]

theorem World.trackGuard_finish {w : World} {k j : RequestId} {t : SubscribeTask}
    {track : FullTrackName} (ht : w.task k = some t) (h : w.trackGuard track = some j) :
    (w.finish k).trackGuard track = some j ∨
      ∃ t', (w.finish k).task j = some t' ∧ t'.pc.locked = false := by
  rcases World.trackGuard_dropTrackGuard (k := k) h with h | rfl
  · exact .inl h
  · exact .inr ⟨_, World.task_update_self _ ht, rfl⟩

theorem SubscribeStep.trackGuard {w w' : World} {k : RequestId} {t : SubscribeTask} {input : Input}
    (h : SubscribeStep w k t input w') (ht : w.task k = some t) {track : FullTrackName}
    {j : RequestId} (hguard : w.trackGuard track = some j) :
    w'.trackGuard track = some j ∨ ∃ t', w'.task j = some t' ∧ t'.pc.locked = false := by
  cases h with
  | lockTrack hpc htrack hfree =>
    left
    show Function.update w.trackGuard _ (some k) track = some j
    rw [Function.update_of_ne, hguard]
    rintro rfl
    rw [hfree] at hguard
    cases hguard
  | record hpc htrack hpublisher hanswer hfree =>
    rcases World.trackGuard_dropTrackGuard (k := k) hguard with hguard | rfl
    · exact .inl hguard
    · exact .inr ⟨_, World.task_update_self _ ht, rfl⟩
  | silent hpc h => exact World.trackGuard_finish ht hguard
  | notDone hpc hmessage => exact World.trackGuard_finish ht hguard
  | notified hpc htodo => exact World.trackGuard_finish ht hguard
  | reject hpc error ok => exact World.trackGuard_finish (World.task_update_self _ ht) hguard
  | forwardLast ok hpc hanswer hencode =>
    exact World.trackGuard_finish (World.task_update_self _ ht) hguard
  | _ => exact .inl hguard

/-- A track's lock stays with its holder until that task has left the stages that hold it. -/
theorem Step.trackGuard {w w' : World} {l : Label} (h : Step w l w') {track : FullTrackName}
    {j : RequestId} (hguard : w.trackGuard track = some j) :
    w'.trackGuard track = some j ∨ ∃ t', w'.task j = some t' ∧ t'.pc.locked = false := by
  cases h with
  | event hconn hstatus event => cases event <;> exact .inl hguard
  | dataStream ht h =>
    rw [h.frame]
    exact .inl hguard
  | subscribe ht h => exact h.trackGuard ht hguard
  | _ => exact .inl hguard

/-- The lock of a track is held by the one task that may record a subscription for it. -/
structure Locks (w : World) : Prop where
  held : ∀ (j : RequestId) (t : SubscribeTask) (track : FullTrackName), w.task j = some t →
    t.pc.locked = true → t.track = some track → w.trackGuard track = some j
  vacant : ∀ (j : RequestId) (t : SubscribeTask) (track : FullTrackName), w.task j = some t →
    t.pc.recording = true → t.track = some track → w.state.subscriptions.lookup track = none

theorem Step.takesLock {w w' : World} {j : RequestId} {input : Input}
    (h : Step w (.subscribe j input) w') {t : SubscribeTask} (ht : w.task j = some t)
    (hpc : t.pc = .lockTrack) {track : FullTrackName} (htrack : t.track = some track)
    {t' : SubscribeTask} (ht' : w'.task j = some t') (hpc' : t'.pc.locked = true) :
    w'.trackGuard track = some j := by
  cases h with
  | subscribe ht₀ h =>
    obtain rfl := Option.mem_unique ht ht₀
    cases h with
    | lockTrack hpc htrack' hfree =>
      obtain rfl := Option.mem_unique htrack htrack'
      exact Function.update_self _ _ _
    | silent hpc₀ h =>
      obtain rfl := Option.mem_unique (World.task_update_self _ ht) ht'
      cases hpc'
    | _ => simp_all

theorem Move.locked {w : World} {k : RequestId} {t u : SubscribeTask} {input : Input}
    (h : Move w k t input u) (hpc : u.pc.locked = true) :
    u.track = t.track ∧ (t.pc.locked = true ∨ t.pc = .lockTrack) := by
  cases h with
  | early _ hpc' track =>
    rw [SubscribePc.not_locked_of_early hpc'] at hpc
    cases hpc
  | lock hpc' => exact ⟨rfl, .inr hpc'⟩
  | search hpc' _ publisher upstreamRequest =>
    exact ⟨rfl, .inl (SubscribePc.locked_of_searching hpc')⟩
  | join hpc' htrack hexisting => exact ⟨rfl, .inl (by rw [hpc']; rfl)⟩
  | vacant hpc' htrack hvacant => exact ⟨rfl, .inl (by rw [hpc']; rfl)⟩
  | answered hpc' ok hinput => exact ⟨rfl, .inl (by rw [hpc']; rfl)⟩
  | notify hpc' htodo =>
    rw [hpc'] at hpc
    cases hpc
  | _ => cases hpc

theorem Locks.step_held {w w' : World} {l : Label} (h : Locks w) (hstep : Step w l w')
    {j : RequestId} {t' : SubscribeTask} {track : FullTrackName} (ht' : w'.task j = some t')
    (hpc : t'.pc.locked = true) (htrack : t'.track = some track) :
    w'.trackGuard track = some j := by
  have stays (hguard : w.trackGuard track = some j) : w'.trackGuard track = some j := by
    rcases hstep.trackGuard hguard with hguard | ⟨t₁, ht₁, hpc₁⟩
    · exact hguard
    · obtain rfl := Option.mem_unique ht' ht₁
      rw [hpc] at hpc₁
      cases hpc₁
  have hj := hstep.task j
  rw [ht'] at hj
  generalize ho : w.task j = o at hj
  cases hj with
  | spawned session message => cases hpc
  | kept hagree =>
    rw [hagree.pc] at hpc
    rw [hagree.track] at htrack
    exact stays (h.held j _ track ho hpc htrack)
  | moved hl hagree hmove =>
    subst hl
    have hlocked := hpc
    rw [hagree.pc] at hlocked
    obtain ⟨hsame, hbefore⟩ := hmove.locked hlocked
    rw [hagree.track, hsame] at htrack
    rcases hbefore with hbefore | hbefore
    · exact stays (h.held j _ track ho hbefore htrack)
    · exact hstep.takesLock ho hbefore htrack ht' hpc

/-- Two tasks that may record a subscription for one track are one. -/
theorem Locks.eq_of_recording {w : World} (h : Locks w) {j k : RequestId} {u t : SubscribeTask}
    {track : FullTrackName} (hu : w.task j = some u) (ht : w.task k = some t)
    (hpcu : u.pc.recording = true) (hpct : t.pc.recording = true) (htracku : u.track = some track)
    (htrackt : t.track = some track) : j = k := by
  have hj := h.held j u track hu (SubscribePc.locked_of_recording hpcu) htracku
  have hk := h.held k t track ht (SubscribePc.locked_of_recording hpct) htrackt
  rw [hj] at hk
  exact Option.some.inj hk

/-! ### Where a subscription comes from -/

/-- Where the subscription `sub'` of the track comes from. -/
inductive SubOrigin (w w' : World) (l : Label) (track : FullTrackName) (sub' : Subscription) :
    Prop
  | old {sub : Subscription} (hsub : w.state.subscriptions.lookup track = some sub)
      (hsame : sub' = { sub with subscribers := sub'.subscribers })
      (hsublist : sub'.subscribers.Sublist sub.subscribers)
  | joined {k : RequestId} {t : SubscribeTask} {sub : Subscription}
      (hl : l = .subscribe k .proceed) (ht : w.task k = some t)
      (hpc : t.pc = .aggregate) (htrack : t.track = some track)
      (hsub : w.state.subscriptions.lookup track = some sub)
      (ht' : w'.task k =
        some { t with pc := .forwardExisting, subscribeOk := some sub.subscribeOk })
      (hsub' : sub' = sub.push ⟨t.session, k⟩)
  | recorded {k : RequestId} {t : SubscribeTask} {publisher : SessionId × MoqtSession}
      {answer : Received SubscribeOkMessage} (hl : l = .subscribe k .proceed)
      (ht : w.task k = some t) (hpc : t.pc = .record) (htrack : t.track = some track)
      (hpublisher : t.publisher = some publisher) (hanswer : t.subscribeOk = some answer)
      (ht' : w'.task k = some { t with pc := .forwardOk })
      (hsub' : sub' =
        ⟨publisher.1, answer.message.trackAlias, answer, [⟨t.session, k⟩]⟩)

theorem RelayState.lookup_pushSubscriber {s : RelayState} {track track' : FullTrackName}
    {existing sub : Subscription} {entry : SubscriberEntry} :
    (s.pushSubscriber track existing entry).subscriptions.lookup track' = some sub ↔
      track' = track ∧ sub = existing.push entry ∨
        track' ≠ track ∧ s.subscriptions.lookup track' = some sub := by
  rw [RelayState.pushSubscriber, Map.lookup_insert_eq]
  split
  · simp [*, eq_comm]
  · simp [*]

theorem SubOrigin.of_eq {w w' : World} {l : Label} {track : FullTrackName} {sub' : Subscription}
    (h : w.state.subscriptions.lookup track = some sub') : SubOrigin w w' l track sub' :=
  .old h rfl (.refl _)

theorem Step.subOrigin {w w' : World} {l : Label} (h : Step w l w') (hlocks : Locks w)
    {track : FullTrackName} {sub' : Subscription}
    (hsub' : w'.state.subscriptions.lookup track = some sub') : SubOrigin w w' l track sub' := by
  cases h with
  | event hconn hstatus event => cases event <;> exact .of_eq hsub'
  | removeSession hconn hstatus hfree =>
    obtain ⟨sub, hsub, hkeep⟩ := RelayState.lookup_removeSession_subscriptions.mp hsub'
    obtain ⟨-, rfl, -⟩ := RelayState.keepWithout_eq_some.mp hkeep
    exact .old hsub rfl List.filter_sublist
  | dataStream ht h =>
    rw [h.frame] at hsub'
    exact .of_eq hsub'
  | subscribe ht h =>
    cases h with
    | trackLock hpc htrack hfree =>
      change (w.state.trackLock _).subscriptions.lookup track = some sub' at hsub'
      unfold RelayState.trackLock at hsub'
      split at hsub' <;> exact .of_eq hsub'
    | join hpc htrack hfree hexisting =>
      rcases RelayState.lookup_pushSubscriber.mp hsub' with ⟨rfl, rfl⟩ | ⟨-, hsub'⟩
      · exact .joined rfl ht hpc htrack hexisting (World.task_update_self _ ht) rfl
      · exact .of_eq hsub'
    | record hpc htrack hpublisher hanswer hfree =>
      have hvacant := hlocks.vacant _ _ _ ht (by rw [hpc]; rfl) htrack
      change (w.state.addSubscriber _ _ _ _ _).subscriptions.lookup track = some sub' at hsub'
      rw [RelayState.addSubscriber_vacant hvacant] at hsub'
      rcases RelayState.lookup_pushSubscriber.mp hsub' with ⟨rfl, rfl⟩ | ⟨-, hsub'⟩
      · exact .recorded rfl ht hpc htrack hpublisher hanswer (World.task_update_self _ ht) rfl
      · exact .of_eq hsub'
    | _ => exact .of_eq hsub'
  | _ => exact .of_eq hsub'

theorem Move.recording {w : World} {k : RequestId} {t u : SubscribeTask} {input : Input}
    (h : Move w k t input u) (hpc : u.pc.recording = true) {track : FullTrackName}
    (htrack : u.track = some track) :
    t.track = some track ∧ t.pc.locked = true ∧
      (t.pc.recording = true ∨ w.state.subscriptions.lookup track = none) := by
  cases h with
  | early _ hpc' track =>
    rw [SubscribePc.not_recording_of_early hpc'] at hpc
    cases hpc
  | vacant hpc' htrack' hvacant =>
    obtain rfl := Option.mem_unique htrack' htrack
    exact ⟨htrack, by rw [hpc']; rfl, .inr hvacant⟩
  | search hpc' _ publisher upstreamRequest =>
    exact ⟨htrack, SubscribePc.locked_of_searching hpc',
      .inl (SubscribePc.recording_of_searching hpc')⟩
  | answered hpc' ok hinput => exact ⟨htrack, by rw [hpc']; rfl, .inl (by rw [hpc']; rfl)⟩
  | notify hpc' htodo =>
    rw [hpc'] at hpc
    cases hpc
  | _ => cases hpc

theorem Locks.step_vacant {w w' : World} {l : Label} (h : Locks w) (hstep : Step w l w')
    {j : RequestId} {t' : SubscribeTask} {track : FullTrackName} (ht' : w'.task j = some t')
    (hpc : t'.pc.recording = true) (htrack : t'.track = some track) :
    w'.state.subscriptions.lookup track = none := by
  -- nothing was recorded before the step either, and `j` held the lock already
  have before : ∃ t, w.task j = some t ∧ t.track = some track ∧ t.pc.locked = true ∧
      w.state.subscriptions.lookup track = none := by
    have hj := hstep.task j
    rw [ht'] at hj
    generalize ho : w.task j = o at hj
    cases hj with
    | spawned session message => cases hpc
    | kept hagree =>
      rw [hagree.pc] at hpc
      rw [hagree.track] at htrack
      exact ⟨_, rfl, htrack, SubscribePc.locked_of_recording hpc, h.vacant j _ track ho hpc htrack⟩
    | moved hl hagree hmove =>
      rw [hagree.pc] at hpc
      rw [hagree.track] at htrack
      obtain ⟨htrack, hlocked, hrecording | hvacant⟩ := hmove.recording hpc htrack
      · exact ⟨_, rfl, htrack, hlocked, h.vacant j _ track ho hrecording htrack⟩
      · exact ⟨_, rfl, htrack, hlocked, hvacant⟩
  obtain ⟨t, ht, htrack, hlocked, hvacant⟩ := before
  cases hsub' : w'.state.subscriptions.lookup track with
  | none => rfl
  | some sub' =>
    cases hstep.subOrigin h hsub' with
    | old hsub _ _ =>
      rw [hvacant] at hsub
      cases hsub
    | joined _ _ _ _ hsub _ _ =>
      rw [hvacant] at hsub
      cases hsub
    | recorded _ ht₀ hpc₀ htrack₀ _ _ ht₀' _ =>
      have hheld := h.held _ _ track ht₀ (by rw [hpc₀]; rfl) htrack₀
      rw [h.held j t track ht hlocked htrack] at hheld
      obtain rfl := Option.some.inj hheld
      obtain rfl := Option.mem_unique ht' ht₀'
      cases hpc

theorem Locks.step {w w' : World} {l : Label} (h : Locks w) (hstep : Step w l w') : Locks w' :=
  ⟨fun _ _ _ ht' hpc htrack => h.step_held hstep ht' hpc htrack,
    fun _ _ _ ht' hpc htrack => h.step_vacant hstep ht' hpc htrack⟩

/-! ### Subscriptions and their tasks -/

/-- Every subscription is that of the task which sent its upstream SUBSCRIBE, and its subscribers
are tasks for the same track that are answered with its SUBSCRIBE_OK. -/
structure Upstreams (w : World) : Prop where
  owner : ∀ (track : FullTrackName) (sub : Subscription),
    w.state.subscriptions.lookup track = some sub →
      sub.publisherTrackAlias = sub.subscribeOk.message.trackAlias ∧
      ∃ t session, w.task sub.subscribeOk.upstream = some t ∧ t.track = some track ∧
        t.publisher = some (sub.publisherSession, session) ∧ t.subscribeOk = some sub.subscribeOk
  listed : ∀ (track : FullTrackName) (sub : Subscription),
    w.state.subscriptions.lookup track = some sub → ∀ e ∈ sub.subscribers,
      ∃ t, w.task e.request = some t ∧ t.session = e.sessionId ∧ t.track = some track ∧
        t.subscribeOk = some sub.subscribeOk
  nodup : ∀ (track : FullTrackName) (sub : Subscription),
    w.state.subscriptions.lookup track = some sub → (sub.subscribers.map (·.request)).Nodup

theorem Upstreams.step_owner {w w' : World} {l : Label} (h : Upstreams w) (hformed : Formed w)
    (hlocks : Locks w) (hstep : Step w l w') {track : FullTrackName} {sub' : Subscription}
    (hsub' : w'.state.subscriptions.lookup track = some sub') :
    sub'.publisherTrackAlias = sub'.subscribeOk.message.trackAlias ∧
      ∃ t session, w'.task sub'.subscribeOk.upstream = some t ∧ t.track = some track ∧
        t.publisher = some (sub'.publisherSession, session) ∧
        t.subscribeOk = some sub'.subscribeOk := by
  have kept (sub : Subscription) (hsub : w.state.subscriptions.lookup track = some sub) :
      ∃ t session, w'.task sub.subscribeOk.upstream = some t ∧ t.track = some track ∧
        t.publisher = some (sub.publisherSession, session) ∧
        t.subscribeOk = some sub.subscribeOk := by
    obtain ⟨-, t, session, ht, htrack, hpublisher, hok⟩ := h.owner track sub hsub
    obtain ⟨t', ht', hkeeps⟩ := hstep.keeps hformed ht hok
    exact ⟨t', session, ht', hkeeps.track.trans htrack, hkeeps.publisher.trans hpublisher,
      hkeeps.subscribeOk.trans hok⟩
  cases hstep.subOrigin hlocks hsub' with
  | @old sub hsub hsame _ =>
    rw [hsame]
    exact ⟨(h.owner track sub hsub).1, kept sub hsub⟩
  | @joined k t sub hl ht hpc htrack hsub ht' heq =>
    rw [heq]
    exact ⟨(h.owner track sub hsub).1, kept sub hsub⟩
  | @recorded k t publisher answer hl ht hpc htrack hpublisher hanswer ht' heq =>
    rw [heq]
    obtain ⟨ok, hok⟩ := (hformed k t ht).own (by rw [hpc]; rfl)
    obtain rfl := Option.mem_unique hanswer hok
    exact ⟨rfl, _, publisher.2, ht', htrack, hpublisher, hanswer⟩

theorem Upstreams.step_listed {w w' : World} {l : Label} (h : Upstreams w) (hformed : Formed w)
    (hlocks : Locks w) (hstep : Step w l w') {track : FullTrackName} {sub' : Subscription}
    (hsub' : w'.state.subscriptions.lookup track = some sub') {e : SubscriberEntry}
    (he : e ∈ sub'.subscribers) :
    ∃ t, w'.task e.request = some t ∧ t.session = e.sessionId ∧ t.track = some track ∧
      t.subscribeOk = some sub'.subscribeOk := by
  have kept (sub : Subscription) (hsub : w.state.subscriptions.lookup track = some sub)
      (he : e ∈ sub.subscribers) : ∃ t, w'.task e.request = some t ∧ t.session = e.sessionId ∧
        t.track = some track ∧ t.subscribeOk = some sub.subscribeOk := by
    obtain ⟨t, ht, hsession, htrack, hok⟩ := h.listed track sub hsub e he
    obtain ⟨t', ht', hkeeps⟩ := hstep.keeps hformed ht hok
    exact ⟨t', ht', hkeeps.session.trans hsession, hkeeps.track.trans htrack,
      hkeeps.subscribeOk.trans hok⟩
  cases hstep.subOrigin hlocks hsub' with
  | @old sub hsub hsame hsublist =>
    rw [hsame]
    exact kept sub hsub (hsublist.subset he)
  | @joined k t sub hl ht hpc htrack hsub ht' heq =>
    rw [heq] at he ⊢
    rcases List.mem_append.mp he with he | he
    · exact kept sub hsub he
    · obtain rfl := List.mem_singleton.mp he
      exact ⟨_, ht', rfl, htrack, rfl⟩
  | recorded hl ht hpc htrack hpublisher hanswer ht' heq =>
    rw [heq] at he ⊢
    obtain rfl := List.mem_singleton.mp he
    exact ⟨_, ht', rfl, htrack, hanswer⟩

theorem Upstreams.step_nodup {w w' : World} {l : Label} (h : Upstreams w) (hformed : Formed w)
    (hlocks : Locks w) (hstep : Step w l w') {track : FullTrackName} {sub' : Subscription}
    (hsub' : w'.state.subscriptions.lookup track = some sub') :
    (sub'.subscribers.map (·.request)).Nodup := by
  cases hstep.subOrigin hlocks hsub' with
  | old hsub hsame hsublist => exact (h.nodup track _ hsub).sublist (hsublist.map _)
  | @joined k t sub hl ht hpc htrack hsub ht' heq =>
    rw [heq]
    have hnone := (hformed k t ht).unanswered (by rw [hpc]; rfl)
    have hnew : k ∉ sub.subscribers.map (·.request) := by
      intro hk
      obtain ⟨e, he, rfl⟩ := List.mem_map.mp hk
      obtain ⟨t₀, ht₀, -, -, hok⟩ := h.listed track sub hsub e he
      obtain rfl := Option.mem_unique ht ht₀
      rw [hnone] at hok
      cases hok
    rw [Subscription.push, List.map_append, List.nodup_append]
    refine ⟨h.nodup track sub hsub, List.nodup_singleton k, ?_⟩
    rintro r hr r' hr' rfl
    have hrk : r = k := List.mem_singleton.mp hr'
    exact hnew (hrk ▸ hr)
  | recorded hl ht hpc htrack hpublisher hanswer ht' heq =>
    rw [heq]
    exact List.nodup_singleton _

/-- What holds of the tasks, the locks and the subscriptions in every state of every run. -/
structure Lifecycle (w : World) : Prop where
  formed : Formed w
  locks : Locks w
  upstreams : Upstreams w

theorem Lifecycle.new : Lifecycle .new := by
  refine ⟨.new, ⟨?_, ?_⟩, ⟨?_, ?_, ?_⟩⟩
  · exact fun j t _ ht => absurd ht (World.not_task_new j)
  · exact fun j t _ ht => absurd ht (World.not_task_new j)
  · exact fun track sub hsub => absurd hsub World.not_lookup_new
  · exact fun track sub hsub => absurd hsub World.not_lookup_new
  · exact fun track sub hsub => absurd hsub World.not_lookup_new

theorem Lifecycle.step {w w' : World} {l : Label} (h : Lifecycle w) (hstep : Step w l w') :
    Lifecycle w' where
  formed := h.formed.step hstep
  locks := h.locks.step hstep
  upstreams :=
    ⟨fun _ _ hsub' => h.upstreams.step_owner h.formed h.locks hstep hsub',
      fun _ _ hsub' _ he => h.upstreams.step_listed h.formed h.locks hstep hsub' he,
      fun _ _ hsub' => h.upstreams.step_nodup h.formed h.locks hstep hsub'⟩

theorem lifecycle_of_run (ls : List Label) : Lifecycle (relay.run .new ls) :=
  (relay.reachable_run ls).invariant Lifecycle.new fun _ _ _ h hstep => h.step (.of_step hstep)

/-- A SUBSCRIBE_OK of the task's own is kept, or it has just been read. -/
theorem Step.ownOk {w w' : World} {l : Label} (h : Step w l w') (hlife : Lifecycle w)
    {k : RequestId} {t' : SubscribeTask} {ok : SubscribeOkMessage} (ht' : w'.task k = some t')
    (hok' : t'.subscribeOk = some ⟨k, ok⟩) :
    ∃ t, w.task k = some t ∧ (t.subscribeOk = some ⟨k, ok⟩ ∧ Keeps t t' ∨
      l = .subscribe k (.response (some (.subscribeOk ok))) ∧ t.pc = .awaitUpstream ∧
        t'.pc = .record ∧ t'.track = t.track ∧ t'.publisher = t.publisher) := by
  rcases h.before ht' with ⟨t, ht⟩ | ⟨session, message, rfl⟩
  · refine ⟨t, ht, ?_⟩
    by_cases hok : t.subscribeOk = some ⟨k, ok⟩
    · obtain ⟨t₁, ht₁, hkeeps⟩ := h.keeps hlife.formed ht hok
      obtain rfl := Option.mem_unique ht' ht₁
      exact .inl ⟨hok, hkeeps⟩
    · have hk := h.task k
      rw [ht, ht'] at hk
      cases hk with
      | kept hagree => exact absurd (hagree.subscribeOk.symm.trans hok') hok
      | moved hl hagree hmove =>
        rw [hagree.subscribeOk] at hok'
        rw [hagree.pc, hagree.publisher, hagree.track]
        cases hmove with
        | answered hpc ok₁ hinput =>
          obtain rfl : ok₁ = ok := by simpa using hok'
          exact .inr ⟨by rw [hl, hinput], hpc, rfl, rfl, rfl⟩
        | join hpc htrack hexisting =>
          -- the subscription that it joins is not its own
          obtain ⟨-, owner, session, howner, -, -, hsome⟩ := hlife.upstreams.owner _ _ hexisting
          rw [Option.some.inj hok'] at howner hsome
          obtain rfl := Option.mem_unique ht howner
          exact absurd hsome hok
        | _ => exact absurd hok' hok
  · cases hok'

end Moqt.Relay
