import Moqt.Relay.Upstream

/-! One upstream SUBSCRIBE at a time for each track.  The task that holds the lock of a track is the
only one to ask a publisher for it, and what it records is what that publisher has answered. -/

namespace Moqt.Relay

open Library Wire

/-! ### What a task asks for -/

/-- The upstream SUBSCRIBE is for the track that the subscriber has asked for. -/
theorem World.trackOf_upstreamSubscribe {m : SubscribeMessage} {track : FullTrackName}
    (h : World.trackOf m = some track) (requestId : UInt64) :
    World.trackOf (World.upstreamSubscribe m track requestId) = some track := by
  obtain ⟨name, -, rfl⟩ := Option.map_eq_some_iff.mp h
  have hname : String.fromUTF8? name.toUTF8 = some name := by
    rw [String.fromUTF8?, String.toUTF8_eq_toByteArray, dif_pos name.isValidUTF8]
    rfl
  simp only [World.trackOf, World.upstreamSubscribe, Array.toArray_toList, Option.map_eq_some_iff]
  exact ⟨name, hname, rfl⟩

/-- What the task has named, and what it asks a publisher for. -/
structure SubscribeTask.Asks (t : SubscribeTask) : Prop where
  named : ∀ track, t.track = some track → World.trackOf t.message = some track
  asked : ∀ request, t.upstreamRequest = some request →
    ∃ track, t.track = some track ∧ World.trackOf request = some track
  asking : t.pc = .writeUpstream ∨ t.pc = .awaitUpstream →
    t.upstreamRequest.isSome ∧ t.publisher.isSome

theorem SubscribeTask.Asks.of_eq {t t' : SubscribeTask} (h : t.Asks)
    (hmessage : t'.message = t.message) (htrack : t'.track = t.track)
    (hrequest : t'.upstreamRequest = t.upstreamRequest)
    (hpc : t'.pc = .writeUpstream ∨ t'.pc = .awaitUpstream →
      t'.upstreamRequest.isSome ∧ t'.publisher.isSome) : t'.Asks := by
  refine ⟨?_, ?_, hpc⟩
  · rw [hmessage, htrack]
    exact h.named
  · rw [hrequest, htrack]
    exact h.asked

theorem SubscribeTask.Asks.wrote {t : SubscribeTask} (h : t.Asks) (response : Response)
    (ok : Bool) : (t.wrote response ok).Asks := by
  refine h.of_eq ?_ ?_ ?_ ?_
  · simp
  · simp
  · simp
  · simpa using h.asking

/-- Every task asks for what it has been asked for. -/
def AllAsk (w : World) : Prop := ∀ (j : RequestId) (t : SubscribeTask), w.task j = some t → t.Asks

theorem AllAsk.update {w : World} (h : AllAsk w) {k : RequestId} {f : SubscribeTask → SubscribeTask}
    (hf : ∀ t, w.task k = some t → (f t).Asks) : AllAsk (w.update k f) :=
  World.forall_task_update (P := fun _ t => t.Asks) h hf

/-- Past the upstream SUBSCRIBE nothing changes in what the task asks for. -/
theorem AllAsk.goto {w : World} (h : AllAsk w) {k : RequestId} {pc : SubscribePc}
    (hpc : pc ≠ .writeUpstream ∧ pc ≠ .awaitUpstream) : AllAsk (w.goto k pc) :=
  h.update fun t ht => (h k t ht).of_eq rfl rfl rfl fun hor => absurd hor (by simp [hpc])

theorem AllAsk.write {w : World} (h : AllAsk w) (r : RequestId) (response : Response) (ok : Bool) :
    AllAsk (w.write r response ok) :=
  h.update fun t ht => (h r t ht).wrote response ok

theorem AllAsk.finish {w : World} (h : AllAsk w) (k : RequestId) : AllAsk (w.finish k) := by
  have hsame : AllAsk ((w.setStateGuard (if w.stateGuard = some k then none else w.stateGuard)
      ).dropTrackGuard k) := h
  exact hsame.goto (by simp)

theorem SubscribeStep.allAsk {w w' : World} {k : RequestId} {t : SubscribeTask} {input : Input}
    (h : SubscribeStep w k t input w') (ht : w.task k = some t) (hasks : AllAsk w) : AllAsk w' := by
  cases h with
  | unsupported hpc hfilter => exact hasks.goto (by simp)
  | @named hpc track hfilter htrack =>
    refine hasks.update fun t₁ ht₁ => ?_
    obtain rfl := Option.mem_unique ht ht₁
    refine ⟨?_, fun request hrequest => ⟨track, rfl, ?_⟩, nofun⟩
    · rintro _ ⟨⟩
      exact htrack
    · -- what it has asked for before has the same name
      obtain ⟨track₁, htrack₁, hof⟩ := (hasks k t ht).asked request hrequest
      have hsame := (hasks k t ht).named track₁ htrack₁
      rw [htrack] at hsame
      rw [hof, hsame]
  | silent hpc h => exact hasks.finish k
  | reject hpc error ok => exact (hasks.write k _ ok).finish k
  | trackLock hpc htrack hfree => exact AllAsk.goto (w := w.setState _) hasks (by simp)
  | lockTrack hpc htrack hfree => exact AllAsk.goto (w := w.setTrackGuard _) hasks (by simp)
  | join hpc htrack hfree hexisting =>
    refine AllAsk.update (w := w.setState _) hasks fun t₁ ht₁ => ?_
    exact (hasks k t₁ ht₁).of_eq rfl rfl rfl nofun
  | vacant hpc htrack hfree hvacant => exact hasks.goto (by simp)
  | found hpc hfree hfound =>
    exact hasks.update fun t₁ ht₁ => (hasks k t₁ ht₁).of_eq rfl rfl rfl (by simp)
  | noPublisher hpc hfree hnone => exact AllAsk.goto (w := w.setStateGuard _) hasks (by simp)
  | @opened hpc track publisher conn htrack hpublisher hconn =>
    refine AllAsk.update (w := w.allocateRequestId _) hasks fun t₁ ht₁ => ?_
    obtain rfl := Option.mem_unique ht ht₁
    have hnamed := (hasks k t ht).named track htrack
    refine ⟨(hasks k t ht).named, ?_, fun _ => ⟨rfl, by simp [hpublisher]⟩⟩
    rintro _ ⟨⟩
    exact ⟨track, htrack, World.trackOf_upstreamSubscribe hnamed _⟩
  | sent hpc hrequest hencode =>
    refine hasks.update fun t₁ ht₁ => ?_
    obtain rfl := Option.mem_unique ht ht₁
    exact (hasks k t ht).of_eq rfl rfl rfl fun _ => (hasks k t ht).asking (.inl hpc)
  | answered hpc ok =>
    exact hasks.update fun t₁ ht₁ => (hasks k t₁ ht₁).of_eq rfl rfl rfl (by simp)
  | record hpc htrack hpublisher hanswer hfree =>
    exact AllAsk.goto (w := (w.setState _).dropTrackGuard k) hasks (by simp)
  | forwardLast ok hpc hanswer hencode => exact (hasks.write k _ ok).finish k
  | forwarded hpc hanswer hencode => exact (hasks.write k _ true).goto (by simp)
  | done hpc done => exact hasks.update fun t₁ ht₁ => (hasks k t₁ ht₁).of_eq rfl rfl rfl (by simp)
  | notDone hpc hmessage => exact hasks.finish k
  | fetch hpc htrack hfree =>
    exact hasks.update fun t₁ ht₁ => (hasks k t₁ ht₁).of_eq rfl rfl rfl (by simp)
  | notify hpc hdone htodo ok =>
    refine AllAsk.write (hasks.update fun t₁ ht₁ => ?_) _ _ ok
    exact (hasks k t₁ ht₁).of_eq rfl rfl rfl (hasks k t₁ ht₁).asking
  | notified hpc htodo => exact hasks.finish k

theorem AllAsk.step {w w' : World} {l : Label} (h : AllAsk w) (hstep : Step w l w') :
    AllAsk w' := by
  cases hstep with
  | event hconn hstatus event =>
    cases event with
    | subscribe message =>
      intro j t ht
      rcases World.task_spawn.mp ht with hold | ⟨-, rfl⟩
      · exact h j t hold
      · exact ⟨nofun, nofun, nofun⟩
    | _ => exact h
  | subscribe ht hs => exact hs.allAsk ht h
  | dataStream ht hs =>
    rw [hs.frame]
    exact h
  | _ => exact h

theorem allAsk_of_run (ls : List Label) : AllAsk (relay.run .new ls) := by
  refine (relay.reachable_run ls).invariant ?_ fun _ _ _ h hstep => h.step (.of_step hstep)
  exact fun j t ht => absurd ht (World.not_task_new j)

/-! ### What a publisher has answered -/

/-- In the run, the task of the upstream subscription has read the SUBSCRIBE_OK in answer to its
SUBSCRIBE for the track to the publisher. -/
def AnsweredBy (ls : List Label) (answer : Received SubscribeOkMessage) (publisher : SessionId)
    (track : FullTrackName) : Prop :=
  ∃ ls₁ t, (relay.run .new ls₁).task answer.upstream = some t ∧ t.pc = .awaitUpstream ∧
    ls₁ ++ [Label.subscribe answer.upstream (.response (some (.subscribeOk answer.message)))] <+:
      ls ∧
    (∃ request, t.upstreamRequest = some request ∧ World.trackOf request = some track) ∧
    ∃ session, t.publisher = some (publisher, session)

theorem AnsweredBy.mono {ls ls' : List Label} {answer : Received SubscribeOkMessage}
    {publisher : SessionId} {track : FullTrackName} (h : AnsweredBy ls answer publisher track)
    (hls : ls <+: ls') : AnsweredBy ls' answer publisher track := by
  obtain ⟨ls₁, t, ht, hpc, hprefixed, hpublisher⟩ := h
  exact ⟨ls₁, t, ht, hpc, hprefixed.trans hls, hpublisher⟩

/-- A task's own SUBSCRIBE_OK has been read from the publisher that it has asked. -/
def OwnAnswers (ls : List Label) : Prop :=
  ∀ (k : RequestId) (t : SubscribeTask) (ok : SubscribeOkMessage),
    (relay.run .new ls).task k = some t → t.subscribeOk = some ⟨k, ok⟩ →
      ∃ publisher session track, t.publisher = some (publisher, session) ∧
        t.track = some track ∧ AnsweredBy ls ⟨k, ok⟩ publisher track

theorem OwnAnswers.step {ls : List Label} {l : Label} {w' : World} (h : OwnAnswers ls)
    (hstep : Step (relay.run .new ls) l w') (hrun : relay.run .new (ls ++ [l]) = w') :
    OwnAnswers (ls ++ [l]) := by
  intro k t' ok ht' hok'
  rw [hrun] at ht'
  have hlife := lifecycle_of_run ls
  have hls : ls <+: ls ++ [l] := List.prefix_append ls [l]
  obtain ⟨t, ht, ⟨hok, hkeeps⟩ | ⟨rfl, hpc, -, htrack', hpublisher'⟩⟩ := hstep.ownOk hlife ht' hok'
  · obtain ⟨publisher, session, track, hpublisher, htrack, hanswered⟩ := h k t ok ht hok
    exact ⟨publisher, session, track, hkeeps.publisher.trans hpublisher,
      hkeeps.track.trans htrack, hanswered.mono hls⟩
  · have hasks := allAsk_of_run ls k t ht
    obtain ⟨hrequest, hpublisher⟩ := hasks.asking (.inr hpc)
    obtain ⟨request, hrequest⟩ := Option.isSome_iff_exists.mp hrequest
    obtain ⟨⟨publisher, session⟩, hpublisher⟩ := Option.isSome_iff_exists.mp hpublisher
    obtain ⟨track, htrack, hof⟩ := hasks.asked request hrequest
    exact ⟨publisher, session, track, hpublisher'.trans hpublisher, htrack'.trans htrack, ls, t, ht,
      hpc, List.prefix_refl _, ⟨request, hrequest, hof⟩, session, hpublisher⟩

theorem ownAnswers_of_run (ls : List Label) : OwnAnswers ls := by
  refine relay.history ?_ (fun ls l w' h hstep hrun => h.step (.of_step hstep) hrun) ?_ ls
  · exact fun k t ok ht => absurd ht (World.not_task_new k)
  · intro ls l h hrun k t ok ht hok
    obtain ⟨publisher, session, track, hpublisher, htrack, hanswered⟩ := h k t ok (hrun ▸ ht) hok
    exact ⟨publisher, session, track, hpublisher, htrack,
      hanswered.mono (List.prefix_append ls [l])⟩

/-! ### Serialization -/

/-- The task is sending an upstream SUBSCRIBE for the track. -/
def SubscribeTask.Sends (t : SubscribeTask) (track : FullTrackName) : Prop :=
  t.pc = .writeUpstream ∧ ∃ request ∈ t.upstreamRequest, World.trackOf request = some track

/-- The upstream SUBSCRIBE of the task for the track, sent in part or as a whole, is without a
response. -/
def SubscribeTask.Awaits (t : SubscribeTask) (track : FullTrackName) : Prop :=
  (t.pc = .writeUpstream ∨ t.pc = .awaitUpstream) ∧
    ∃ request ∈ t.upstreamRequest, World.trackOf request = some track

theorem SubscribeTask.Sends.awaits {t : SubscribeTask} {track : FullTrackName}
    (h : t.Sends track) : t.Awaits track := ⟨.inl h.1, h.2⟩

theorem SubscribeTask.Awaits.recording {t : SubscribeTask} {track : FullTrackName}
    (h : t.Awaits track) (hasks : t.Asks) : t.pc.recording = true ∧ t.track = some track := by
  obtain ⟨hpc, request, hrequest, hof⟩ := h
  obtain ⟨track₁, htrack₁, hof₁⟩ := hasks.asked request hrequest
  obtain rfl := Option.mem_unique hof hof₁
  refine ⟨?_, htrack₁⟩
  rcases hpc with hpc | hpc <;> rw [hpc] <;> rfl

/-- What per-track serialization promises of a run: while an upstream SUBSCRIBE is sent for a track,
no other one for it is without a response and there is no subscription for it; a subscription is
recorded where there is none; and what is recorded is one response of its publisher. -/
structure Serialized (ls : List Label) : Prop where
  alone : ∀ (k : RequestId) (t : SubscribeTask) (track : FullTrackName),
    (relay.run .new ls).task k = some t → t.Sends track →
      (relay.run .new ls).state.subscriptions.lookup track = none ∧
        ∀ (j : RequestId) (u : SubscribeTask), (relay.run .new ls).task j = some u →
          u.Awaits track → j = k
  vacant : ∀ (k : RequestId) (t : SubscribeTask) (track : FullTrackName),
    (relay.run .new ls).task k = some t → t.pc = .record → t.track = some track →
      (relay.run .new ls).state.subscriptions.lookup track = none
  recorded : ∀ (track : FullTrackName) (sub : Subscription),
    (relay.run .new ls).state.subscriptions.lookup track = some sub →
      AnsweredBy ls sub.subscribeOk sub.publisherSession track ∧
        sub.publisherTrackAlias = sub.subscribeOk.message.trackAlias

theorem serialized_of_run (ls : List Label) : Serialized ls := by
  have hlife := lifecycle_of_run ls
  have hasks := allAsk_of_run ls
  constructor
  · intro k t track ht hsends
    obtain ⟨hpct, htrackt⟩ := hsends.awaits.recording (hasks k t ht)
    refine ⟨hlife.locks.vacant k t track ht hpct htrackt, fun j u hu hawaits => ?_⟩
    obtain ⟨hpcu, htracku⟩ := hawaits.recording (hasks j u hu)
    exact hlife.locks.eq_of_recording hu ht hpcu hpct htracku htrackt
  · intro k t track ht hpc htrack
    exact hlife.locks.vacant k t track ht (by rw [hpc]; rfl) htrack
  · intro track sub hsub
    obtain ⟨halias, owner, session, ho, htrack, hpublisher, hok⟩ :=
      hlife.upstreams.owner track sub hsub
    obtain ⟨publisher, session₁, track₁, hpublisher₁, htrack₁, hanswered⟩ :=
      ownAnswers_of_run ls _ owner _ ho hok
    rw [hpublisher] at hpublisher₁
    obtain ⟨rfl, -⟩ := Prod.mk.inj (Option.some.inj hpublisher₁)
    obtain rfl := Option.mem_unique htrack htrack₁
    exact ⟨hanswered, halias⟩

end Moqt.Relay
