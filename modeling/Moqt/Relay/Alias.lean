import Moqt.Relay.DataStream
import Moqt.Relay.Ended

/-! Track aliases.  A data stream names its track by the alias that its publisher has given to the
upstream subscription.  While the publisher keeps its aliases apart and no ended subscription stays
in the map, the alias leads to the subscribers of that track and to no others. -/

namespace Moqt.Relay

open Library Wire

/-! ### Established subscriptions -/

/-- The task `k` has an upstream subscription to the track at the publisher, under the alias, that
has not ended. -/
def SubscribeTask.Holds (t : SubscribeTask) (k : RequestId) (publisher : SessionId)
    (trackAlias : UInt64) (track : FullTrackName) : Prop :=
  t.track = some track ∧ (∃ p ∈ t.publisher, p.1 = publisher) ∧
    (∃ answer ∈ t.subscribeOk, answer.upstream = k ∧ answer.message.trackAlias = trackAlias) ∧
    ¬ t.Ended

instance (t : SubscribeTask) (k : RequestId) (publisher : SessionId) (trackAlias : UInt64)
    (track : FullTrackName) : Decidable (t.Holds k publisher trackAlias track) :=
  inferInstanceAs (Decidable (_ ∧ _ ∧ _ ∧ _))

def Established (w : World) (publisher : SessionId) (trackAlias : UInt64) (track : FullTrackName) :
    Prop :=
  ∃ k t, w.task k = some t ∧ t.Holds k publisher trackAlias track

/-- The SUBSCRIBE_OK that the step reads from an upstream request stream. -/
def Label.subscribeOk : Label → Option (RequestId × SubscribeOkMessage)
  | .subscribe k (.response (some (.subscribeOk ok))) => some (k, ok)
  | _ => none

/-- A publisher that answers SUBSCRIBE with an alias does not use it for another track. -/
def AliasesDistinct (w : World) (l : Label) : Prop :=
  ∀ read ∈ l.subscribeOk, ∀ t ∈ w.task read.1, t.pc = .awaitUpstream →
    ∀ publisher ∈ t.publisher, ∀ track ∈ t.track, ∀ j < w.subscribes.length, ∀ u ∈ w.task j,
      ∀ track' ∈ u.track, u.Holds j publisher.1 read.2.trackAlias track' → track' = track

instance (w : World) (l : Label) : Decidable (AliasesDistinct w l) :=
  inferInstanceAs (Decidable (∀ read ∈ l.subscribeOk, ∀ t ∈ w.task read.1, t.pc = .awaitUpstream →
    ∀ publisher ∈ t.publisher, ∀ track ∈ t.track, ∀ j < w.subscribes.length, ∀ u ∈ w.task j,
      ∀ track' ∈ u.track, u.Holds j publisher.1 read.2.trackAlias track' → track' = track))

theorem SubscribeTask.Holds.of_agree {t t' : SubscribeTask} {k : RequestId} {publisher : SessionId}
    {trackAlias : UInt64} {track : FullTrackName} (h : t'.Holds k publisher trackAlias track)
    (hagree : Agree t t') : t.Holds k publisher trackAlias track := by
  obtain ⟨htrack, hpublisher, hok, hended⟩ := h
  rw [hagree.track] at htrack
  rw [hagree.publisher] at hpublisher
  rw [hagree.subscribeOk] at hok
  refine ⟨htrack, hpublisher, hok, fun ⟨hdone, hpc⟩ => hended ⟨?_, ?_⟩⟩
  · rw [hagree.publishDone, hdone]
  · rw [hagree.pc]
    exact hpc

/-- A subscription is established by the SUBSCRIBE_OK that its task reads. -/
theorem Move.holds {w : World} {k : RequestId} {t u : SubscribeTask} {input : Input}
    (h : Move w k t input u) (hlife : Lifecycle w) (ht : w.task k = some t)
    {publisher : SessionId} {trackAlias : UInt64} {track : FullTrackName}
    (hholds : u.Holds k publisher trackAlias track) :
    t.Holds k publisher trackAlias track ∨ t.pc = .awaitUpstream ∧ t.track = some track ∧
      (∃ p ∈ t.publisher, p.1 = publisher) ∧
      ∃ ok, input = .response (some (.subscribeOk ok)) ∧ ok.trackAlias = trackAlias := by
  have hwf := hlife.formed k t ht
  have unanswered (hpc : t.pc.unanswered = true) (hok : ∃ answer ∈ t.subscribeOk,
      answer.upstream = k ∧ answer.message.trackAlias = trackAlias) : False := by
    obtain ⟨answer, hanswer, -⟩ := hok
    rw [hwf.unanswered hpc] at hanswer
    cases hanswer
  obtain ⟨htrack, hpublisher, hok, hended⟩ := hholds
  have live (hpc : t.pc.ending = false) : ¬ t.Ended := by
    rintro ⟨hsome, -⟩
    rw [hwf.publishDone_none hpc] at hsome
    cases hsome
  cases h with
  | early hpc hpc' track => exact (unanswered (SubscribePc.unanswered_of_early hpc) hok).elim
  | search hpc hpc' publisher upstreamRequest =>
    exact (unanswered (SubscribePc.unanswered_of_searching hpc) hok).elim
  | lock hpc => exact (unanswered (by rw [hpc]; rfl) hok).elim
  | vacant hpc htrack hvacant => exact (unanswered (by rw [hpc]; rfl) hok).elim
  | @join hpc track₁ existing htrack₁ hexisting =>
    -- the SUBSCRIBE_OK is that of another task
    obtain ⟨answer, hanswer, hk, -⟩ := hok
    obtain rfl := Option.some.inj hanswer
    obtain ⟨-, owner, session, howner, -, -, hsome⟩ :=
      hlife.upstreams.owner track₁ existing hexisting
    rw [hk] at howner
    obtain rfl := Option.mem_unique ht howner
    rw [hwf.unanswered (by rw [hpc]; rfl)] at hsome
    cases hsome
  | answered hpc ok hinput =>
    obtain ⟨answer, hanswer, -, halias⟩ := hok
    obtain rfl := Option.some.inj hanswer
    exact .inr ⟨hpc, htrack, hpublisher, ok, hinput, halias⟩
  | record hpc => exact .inl ⟨htrack, hpublisher, hok, live (by rw [hpc]; rfl)⟩
  | forwarded hpc => exact .inl ⟨htrack, hpublisher, hok, live (by rw [hpc]; rfl)⟩
  | done hpc done hinput => exact .inl ⟨htrack, hpublisher, hok, live (by rw [hpc]; rfl)⟩
  | fetch hpc htrack₁ => exact .inl ⟨htrack, hpublisher, hok, fun h => h.2 hpc⟩
  | notify hpc htodo => exact .inl ⟨htrack, hpublisher, hok, hended⟩
  | leave hpc htodo =>
    exact .inl ⟨htrack, hpublisher, hok, fun h => hended ⟨h.1, by simp⟩⟩

theorem Step.established {w w' : World} {l : Label} (h : Step w l w') (hlife : Lifecycle w)
    {publisher : SessionId} {trackAlias : UInt64} {track : FullTrackName}
    (hestablished : Established w' publisher trackAlias track) :
    Established w publisher trackAlias track ∨ ∃ k t ok,
      l = .subscribe k (.response (some (.subscribeOk ok))) ∧ w.task k = some t ∧
        t.pc = .awaitUpstream ∧ t.track = some track ∧ (∃ p ∈ t.publisher, p.1 = publisher) ∧
        ok.trackAlias = trackAlias := by
  obtain ⟨k, t', ht', hholds⟩ := hestablished
  rcases h.before ht' with ⟨t, ht⟩ | ⟨session, message, rfl⟩
  · have hk := h.task k
    rw [ht, ht'] at hk
    cases hk with
    | kept hagree => exact .inl ⟨k, t, ht, hholds.of_agree hagree⟩
    | moved hl hagree hmove =>
      rcases hmove.holds hlife ht (hholds.of_agree hagree) with
        hbefore | ⟨hpc, htrack, hpublisher, ok, rfl, halias⟩
      · exact .inl ⟨k, t, ht, hbefore⟩
      · exact .inr ⟨k, t, ok, hl, ht, hpc, htrack, hpublisher, halias⟩
  · obtain ⟨htrack, -⟩ := hholds
    cases htrack

/-- At a publisher, an alias stands for one track. -/
def AliasUnique (w : World) : Prop :=
  ∀ (publisher : SessionId) (trackAlias : UInt64) (track track' : FullTrackName),
    Established w publisher trackAlias track → Established w publisher trackAlias track' →
      track' = track

/-- A new subscription is for the track of every other one under its alias. -/
theorem AliasesDistinct.track_eq {w : World} {k : RequestId} {ok : SubscribeOkMessage}
    (h : AliasesDistinct w (.subscribe k (.response (some (.subscribeOk ok))))) {t : SubscribeTask}
    (ht : w.task k = some t) (hpc : t.pc = .awaitUpstream) {track track' : FullTrackName}
    (htrack : t.track = some track) {publisher : SessionId}
    (hpublisher : ∃ p ∈ t.publisher, p.1 = publisher)
    (hother : Established w publisher ok.trackAlias track') : track' = track := by
  obtain ⟨p, hp, rfl⟩ := hpublisher
  obtain ⟨j, u, hu, hholds⟩ := hother
  have hj : j < w.subscribes.length := (List.getElem?_eq_some_iff.mp hu).1
  exact h (k, ok) rfl t ht hpc p hp track htrack j hj u hu track' hholds.1 hholds

theorem AliasUnique.step {w w' : World} {l : Label} (h : AliasUnique w) (hlife : Lifecycle w)
    (hdistinct : AliasesDistinct w l) (hstep : Step w l w') : AliasUnique w' := by
  intro publisher trackAlias track track' hest hest'
  rcases hstep.established hlife hest with hold | ⟨k, t, ok, rfl, ht, hpc, htrack, hp, rfl⟩
  · rcases hstep.established hlife hest' with hold' | ⟨k, t, ok, rfl, ht, hpc, htrack, hp, rfl⟩
    · exact h publisher trackAlias track track' hold hold'
    · exact (hdistinct.track_eq ht hpc htrack hp hold).symm
  · rcases hstep.established hlife hest' with hold' | ⟨k', t', ok', hl, ht', -, htrack', -, -⟩
    · exact hdistinct.track_eq ht hpc htrack hp hold'
    · -- both are the one that the step establishes
      obtain ⟨rfl, -⟩ := Label.subscribe.inj hl
      obtain rfl := Option.mem_unique ht ht'
      exact Option.mem_unique htrack' htrack

theorem AliasUnique.new : AliasUnique .new := by
  rintro publisher trackAlias track track' ⟨k, t, ht, -⟩
  exact absurd ht (World.not_task_new k)

/-! ### The lookup by alias -/

/-- A subscription in the map that has not ended is established. -/
theorem Subscription.Live.established {w : World} {sub : Subscription} (h : sub.Live w)
    (hlife : Lifecycle w) {track : FullTrackName}
    (hsub : w.state.subscriptions.lookup track = some sub) :
    Established w sub.publisherSession sub.publisherTrackAlias track := by
  obtain ⟨halias, owner, session, ho, htrack, hpublisher, hok⟩ :=
    hlife.upstreams.owner track sub hsub
  refine ⟨sub.subscribeOk.upstream, owner, ho, htrack, ⟨_, hpublisher, rfl⟩, ?_, ?_⟩
  · exact ⟨sub.subscribeOk, hok, rfl, halias.symm⟩
  · exact h owner ho

/-- The session is listed as a subscriber of the track, under the publisher and the alias. -/
def SubscribedTo (w : World) (session : MoqtSession) (publisher : SessionId) (trackAlias : UInt64)
    (track : FullTrackName) : Prop :=
  ∃ sub, w.state.subscriptions.lookup track = some sub ∧ sub.publisherSession = publisher ∧
    sub.publisherTrackAlias = trackAlias ∧
    ∃ e ∈ sub.subscribers, w.state.sessions.lookup e.sessionId = some session

/-- The track is the one whose established subscription at the publisher has the alias. -/
def TrackOf (w : World) (publisher : SessionId) (trackAlias : UInt64) (track : FullTrackName) :
    Prop :=
  Established w publisher trackAlias track ∧
    ∀ track', Established w publisher trackAlias track' → track' = track

/-- The lookup by alias returns subscribers of the alias's track only. -/
def LookupRight (w : World) : Prop :=
  ∀ (publisher : SessionId) (trackAlias : UInt64),
    ∀ session ∈ w.state.findSubscriberSessions publisher trackAlias,
      ∃ track, TrackOf w publisher trackAlias track ∧
        SubscribedTo w session publisher trackAlias track

/-- What a run keeps whose publishers keep their aliases apart, and in which the entry is gone when
its task fetches the subscribers. -/
structure Separated (w : World) : Prop where
  lifecycle : Lifecycle w
  live : AllLive w
  unique : AliasUnique w

theorem separated_of_run {ls : List Label} (hgone : relay.Meets EntryGone .new ls)
    (hdistinct : relay.Meets AliasesDistinct .new ls) : Separated (relay.run .new ls) := by
  refine Machine.invariant ⟨.new, .new, .new⟩ ?_ (hgone.and hdistinct)
  intro w l w' hw hl hstep
  have hstep := Step.of_step hstep
  exact ⟨hw.lifecycle.step hstep, hw.live.step hw.lifecycle hl.1 hstep,
    hw.unique.step hw.lifecycle hl.2 hstep⟩

theorem Separated.lookupRight {w : World} (h : Separated w) : LookupRight w := by
  intro publisher trackAlias session hmem
  obtain ⟨track, sub, hsub, rfl, rfl, he⟩ := RelayState.mem_findSubscriberSessions.mp hmem
  have hestablished := (h.live track sub hsub).established h.lifecycle hsub
  exact ⟨track, ⟨hestablished, fun track' h' => h.unique _ _ track track' hestablished h'⟩,
    sub, hsub, rfl, rfl, he⟩

/-- The lookup by alias is right in the last state of the run, and every stream that the run has
opened goes to a session that was subscribed to the stream's track when it was looked up. -/
structure TracksApart (ls : List Label) : Prop where
  lookup : LookupRight (relay.run .new ls)
  streams : ∀ (s : StreamId) (d : Downstream), (relay.run .new ls).streams[s]? = some d →
    ∃ (i : Nat) (t : DataStreamTask), (relay.run .new ls).dataStreams[i]? = some t ∧
      s ∈ t.opened ∧ d.header = t.header ∧ ∃ ls₁ track, ls₁ <+: ls ∧
        TrackOf (relay.run .new ls₁) t.senderSession t.header.trackAlias track ∧
        SubscribedTo (relay.run .new ls₁) d.session t.senderSession t.header.trackAlias track

/-- Objects of a track reach no subscribers of another in any run in which the entry is gone when
its task fetches the subscribers. -/
theorem tracksApart_of_entryGone (ls : List Label)
    (hdistinct : relay.Meets AliasesDistinct .new ls) (hgone : relay.Meets EntryGone .new ls) :
    TracksApart ls := by
  constructor
  · exact (separated_of_run hgone hdistinct).lookupRight
  · intro s d hd
    obtain ⟨i, t, ht, hs, hheader, ls₁, ⟨ls₂, rfl⟩, hmem⟩ := (Forwards.of_run ls).opened s d hd
    have hright : LookupRight (relay.run .new ls₁) :=
      (separated_of_run (Machine.meets_append.mp hgone).1
        (Machine.meets_append.mp hdistinct).1).lookupRight
    obtain ⟨track, htrack, hsubscribed⟩ := hright _ _ d.session hmem
    exact ⟨i, t, ht, hs, hheader, ls₁, track, List.prefix_append ls₁ ls₂, htrack, hsubscribed⟩

/-- A publisher ends a track and uses its alias for another one. -/
def aliasReused : List Label :=
  [Label.connect, .connect, .connect] ++ Schedule.announce 0 0 ⟨[[1]]⟩ ++
    Schedule.ask 1 0 ⟨[[1]]⟩ [0x61] ++ Schedule.fetchUpstream 0 7 ++
    [Label.subscribe 0 (.responded 0 true)] ++ Schedule.endTrack 0 ++
    [Label.subscribe 0 (.responded 0 true), .subscribe 0 .proceed] ++
    Schedule.ask 2 1 ⟨[[1]]⟩ [0x62] ++ Schedule.fetchUpstream 1 7

set_option maxRecDepth 4096 in
theorem not_tracksApart_aliasReused :
    ¬∀ ls, relay.Meets AliasesDistinct .new ls → TracksApart ls := by
  intro h
  have hmem : ⟨1⟩ ∈ (relay.run .new aliasReused).state.findSubscriberSessions 0 7 := by decide
  obtain ⟨track, ⟨⟨k, t, ht, hholds⟩, -⟩, sub, hsub, -, -, e, he, hsession⟩ :=
    (h aliasReused (by decide)).lookup 0 7 ⟨1⟩ hmem
  -- session 1 is listed for the first track only, whose subscription has ended
  have hlisted : ∀ x ∈ (relay.run .new aliasReused).state.subscriptions.entries,
      ∀ e ∈ x.2.subscribers, (relay.run .new aliasReused).state.sessions.lookup e.sessionId =
        some ⟨1⟩ → x.1 = ⟨⟨[[1]]⟩, "a"⟩ := by decide
  have hended : ∀ k < (relay.run .new aliasReused).subscribes.length,
      ∀ t ∈ (relay.run .new aliasReused).task k, ¬ t.Holds k 0 7 ⟨⟨[[1]]⟩, "a"⟩ := by decide
  have htrack : track = ⟨⟨[[1]]⟩, "a"⟩ :=
    hlisted ⟨track, sub⟩ (Map.lookup_eq_some_iff.mp hsub) e he hsession
  subst htrack
  exact hended k (List.getElem?_eq_some_iff.mp ht).1 t ht hholds

/-- A publisher uses its alias again for another track after the only subscriber of the first one
has left; a data stream reaches the subscriber of the second one. -/
theorem tracksApart_reusedAfterDisconnect : TracksApart
    ([Label.connect, .connect, .connect] ++ Schedule.announce 0 0 ⟨[[1]]⟩ ++
      Schedule.ask 1 0 ⟨[[1]]⟩ [0x61] ++ Schedule.fetchUpstream 0 7 ++
      [Label.subscribe 0 (.responded 0 true)] ++ Schedule.disconnect 1 ++ Schedule.endTrack 0 ++
      Schedule.ask 2 1 ⟨[[1]]⟩ [0x62] ++ Schedule.fetchUpstream 1 7 ++
      [Label.event 0 (.dataStream ⟨7, 0, false, false, none, some 128⟩), .dataStream 0 .proceed,
        .dataStream 0 (.opened true)]) :=
  tracksApart_of_entryGone _ (by decide) (by decide)

end Moqt.Relay
