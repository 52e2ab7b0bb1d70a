import Moqt.Relay.Alias
import Moqt.Relay.Response

/-! The aliases that a subscriber is told.  The relay forwards the SUBSCRIBE_OK and the header of
each data stream as the publisher wrote them.  Two publishers may use the same alias, so a
subscriber of both can tell its tracks apart only if their aliases happen to differ. -/

namespace Moqt.Relay

open Library Wire

/-- The session is listed for no other track under the alias, of another publisher than this one. -/
def AliasFree (w : World) (session : SessionId) (track : FullTrackName) (publisher : SessionId)
    (trackAlias : UInt64) : Prop :=
  ∀ x ∈ w.state.subscriptions.entries, x.1 ≠ track → x.2.publisherTrackAlias = trackAlias →
    (∃ e ∈ x.2.subscribers, e.sessionId = session) → x.2.publisherSession = publisher

instance (w : World) (session : SessionId) (track : FullTrackName) (publisher : SessionId)
    (trackAlias : UInt64) : Decidable (AliasFree w session track publisher trackAlias) :=
  inferInstanceAs (Decidable (∀ x ∈ w.state.subscriptions.entries, _ → _ → _ → _))

/-- A session that is listed for a track is not listed for one of another publisher with the same
alias. -/
def ListsApart (w : World) : Label → Prop
  | .subscribe k _ => ∀ t ∈ w.task k, ∀ track ∈ t.track,
      (t.pc = .aggregate → ∀ sub ∈ w.state.subscriptions.lookup track,
        AliasFree w t.session track sub.publisherSession sub.publisherTrackAlias) ∧
      (t.pc = .record → ∀ publisher ∈ t.publisher, ∀ answer ∈ t.subscribeOk,
        AliasFree w t.session track publisher.1 answer.message.trackAlias)
  | _ => True

instance (w : World) (l : Label) : Decidable (ListsApart w l) :=
  match l with
  | .subscribe k _ => inferInstanceAs (Decidable (∀ t ∈ w.task k, ∀ track ∈ t.track,
      (t.pc = .aggregate → ∀ sub ∈ w.state.subscriptions.lookup track,
        AliasFree w t.session track sub.publisherSession sub.publisherTrackAlias) ∧
      (t.pc = .record → ∀ publisher ∈ t.publisher, ∀ answer ∈ t.subscribeOk,
        AliasFree w t.session track publisher.1 answer.message.trackAlias)))
  | .connect | .event _ _ | .eventError _ | .removeSession _ | .publishNamespace _ _
  | .dataStream _ _ => isTrue trivial

/-- A listed subscriber was listed before, under the same publisher and alias, or the step lists
it. -/
theorem Step.listing {w w' : World} {l : Label} (h : Step w l w') (hlocks : Locks w)
    {track : FullTrackName} {sub' : Subscription}
    (hsub' : w'.state.subscriptions.lookup track = some sub') {e : SubscriberEntry}
    (he : e ∈ sub'.subscribers) :
    (∃ sub, w.state.subscriptions.lookup track = some sub ∧ e ∈ sub.subscribers ∧
      sub.publisherSession = sub'.publisherSession ∧
      sub.publisherTrackAlias = sub'.publisherTrackAlias) ∨
    ∃ k t, l = .subscribe k .proceed ∧ w.task k = some t ∧ t.track = some track ∧
      t.session = e.sessionId ∧ (ListsApart w l →
        AliasFree w t.session track sub'.publisherSession sub'.publisherTrackAlias) := by
  cases h.subOrigin hlocks hsub' with
  | @old sub hsub hsame hsublist =>
    left
    rw [hsame]
    exact ⟨sub, hsub, hsublist.subset he, rfl, rfl⟩
  | @joined k t sub hl ht hpc htrack hsub ht' heq =>
    rw [heq] at he ⊢
    rcases List.mem_append.mp he with he | he
    · exact .inl ⟨sub, hsub, he, rfl, rfl⟩
    · obtain rfl := List.mem_singleton.mp he
      refine .inr ⟨k, t, hl, ht, htrack, rfl, fun hapart => ?_⟩
      rw [hl] at hapart
      exact (hapart t ht track htrack).1 hpc sub hsub
  | @recorded k t publisher answer hl ht hpc htrack hpublisher hanswer ht' heq =>
    rw [heq] at he ⊢
    obtain rfl := List.mem_singleton.mp he
    refine .inr ⟨k, t, hl, ht, htrack, rfl, fun hapart => ?_⟩
    rw [hl] at hapart
    exact (hapart t ht track htrack).2 hpc publisher hpublisher answer hanswer

/-- Where a session is listed twice under one alias, it is the alias of one publisher. -/
def OnePublisher (w : World) : Prop :=
  ∀ (track₁ track₂ : FullTrackName) (sub₁ sub₂ : Subscription),
    w.state.subscriptions.lookup track₁ = some sub₁ →
    w.state.subscriptions.lookup track₂ = some sub₂ →
    ∀ e₁ ∈ sub₁.subscribers, ∀ e₂ ∈ sub₂.subscribers, e₁.sessionId = e₂.sessionId →
      sub₁.publisherTrackAlias = sub₂.publisherTrackAlias →
        sub₁.publisherSession = sub₂.publisherSession

theorem OnePublisher.step {w w' : World} {l : Label} (h : OnePublisher w) (hlocks : Locks w)
    (hapart : ListsApart w l) (hstep : Step w l w') : OnePublisher w' := by
  intro track₁ track₂ sub₁ sub₂ hsub₁ hsub₂ e₁ he₁ e₂ he₂ hsession halias
  by_cases htracks : track₁ = track₂
  · subst htracks
    rw [Option.mem_unique hsub₁ hsub₂]
  rcases hstep.listing hlocks hsub₁ he₁ with ⟨old₁, hold₁, hmem₁, hpub₁, hal₁⟩ |
    ⟨k₁, t₁, rfl, ht₁, htrack₁, hs₁, hfree₁⟩
  · rcases hstep.listing hlocks hsub₂ he₂ with ⟨old₂, hold₂, hmem₂, hpub₂, hal₂⟩ |
      ⟨k₂, t₂, rfl, ht₂, htrack₂, hs₂, hfree₂⟩
    · rw [← hpub₁, ← hpub₂]
      exact h track₁ track₂ old₁ old₂ hold₁ hold₂ e₁ hmem₁ e₂ hmem₂ hsession
        (hal₁.trans (halias.trans hal₂.symm))
    · rw [← hpub₁]
      exact hfree₂ hapart ⟨track₁, old₁⟩ (Map.lookup_eq_some_iff.mp hold₁) htracks
        (hal₁.trans halias) ⟨e₁, hmem₁, hsession.trans hs₂.symm⟩
  · rcases hstep.listing hlocks hsub₂ he₂ with ⟨old₂, hold₂, hmem₂, hpub₂, hal₂⟩ |
      ⟨k₂, t₂, hl, ht₂, htrack₂, hs₂, hfree₂⟩
    · rw [← hpub₂]
      exact (hfree₁ hapart ⟨track₂, old₂⟩ (Map.lookup_eq_some_iff.mp hold₂) (Ne.symm htracks)
        (hal₂.trans halias.symm) ⟨e₂, hmem₂, hsession.symm.trans hs₁.symm⟩).symm
    · obtain ⟨rfl, -⟩ := Label.subscribe.inj hl
      obtain rfl := Option.mem_unique ht₁ ht₂
      exact absurd (Option.mem_unique htrack₁ htrack₂) htracks

/-! ### Announced aliases -/

/-- The SUBSCRIBE_OK that the request is answered with has the alias; one that has been written is
that one. -/
def AnnouncedAs (w : World) (r : RequestId) (trackAlias : UInt64) : Prop :=
  ∃ t answer, w.task r = some t ∧ t.subscribeOk = some answer ∧
    answer.message.trackAlias = trackAlias ∧ ∀ ok, Response.subscribeOk ok ∈ t.written → ok = answer

theorem announcedAs_of_listed {w : World} (hlife : Lifecycle w) (hwritten : OkWritten w)
    {track : FullTrackName} {sub : Subscription}
    (hsub : w.state.subscriptions.lookup track = some sub) {e : SubscriberEntry}
    (he : e ∈ sub.subscribers) : AnnouncedAs w e.request sub.publisherTrackAlias := by
  obtain ⟨t, ht, -, -, hok⟩ := hlife.upstreams.listed track sub hsub e he
  obtain ⟨halias, -⟩ := hlife.upstreams.owner track sub hsub
  refine ⟨t, sub.subscribeOk, ht, hok, halias.symm, fun ok hmem => ?_⟩
  exact Option.mem_unique (hwritten e.request t ok ht hmem) hok

/-- A subscriber of two live tracks has been told two aliases, and every stream that the run has
opened carries the alias that its subscriber was told for the stream's track. -/
structure AliasesTell (ls : List Label) : Prop where
  tracks : ∀ (track₁ track₂ : FullTrackName) (sub₁ sub₂ : Subscription), track₁ ≠ track₂ →
    (relay.run .new ls).state.subscriptions.lookup track₁ = some sub₁ →
    (relay.run .new ls).state.subscriptions.lookup track₂ = some sub₂ →
    sub₁.Live (relay.run .new ls) → sub₂.Live (relay.run .new ls) →
    ∀ e₁ ∈ sub₁.subscribers, ∀ e₂ ∈ sub₂.subscribers, e₁.sessionId = e₂.sessionId →
      ∃ alias₁ alias₂, AnnouncedAs (relay.run .new ls) e₁.request alias₁ ∧
        AnnouncedAs (relay.run .new ls) e₂.request alias₂ ∧ alias₁ ≠ alias₂
  streams : ∀ (s : StreamId) (d : Downstream), (relay.run .new ls).streams[s]? = some d →
    ∃ (i : Nat) (t : DataStreamTask), (relay.run .new ls).dataStreams[i]? = some t ∧
      s ∈ t.opened ∧ ∃ ls₁ track sub, ls₁ <+: ls ∧
        TrackOf (relay.run .new ls₁) t.senderSession t.header.trackAlias track ∧
        (relay.run .new ls₁).state.subscriptions.lookup track = some sub ∧
        ∃ e ∈ sub.subscribers,
          (relay.run .new ls₁).state.sessions.lookup e.sessionId = some d.session ∧
          AnnouncedAs (relay.run .new ls₁) e.request d.header.trackAlias

theorem onePublisher_of_run {ls : List Label} (hapart : relay.Meets ListsApart .new ls) :
    OnePublisher (relay.run .new ls) := by
  have hboth : Lifecycle (relay.run .new ls) ∧ OnePublisher (relay.run .new ls) := by
    refine Machine.invariant (I := fun w => Lifecycle w ∧ OnePublisher w) ?_ ?_ hapart
    · exact ⟨.new, fun track₁ track₂ sub₁ sub₂ hsub₁ => absurd hsub₁ World.not_lookup_new⟩
    · intro w l w' hw hl hstep
      have hstep := Step.of_step hstep
      exact ⟨hw.1.step hstep, hw.2.step hw.1.locks hl hstep⟩
  exact hboth.2

/-- A subscriber can tell its tracks apart by alias in any run in which no session is listed under
one alias of two publishers, and in which the entry is gone when its task fetches the
subscribers. -/
theorem aliasesTell_of_listsApart (ls : List Label)
    (hdistinct : relay.Meets AliasesDistinct .new ls) (hgone : relay.Meets EntryGone .new ls)
    (hapart : relay.Meets ListsApart .new ls) : AliasesTell ls := by
  constructor
  · intro track₁ track₂ sub₁ sub₂ hne hsub₁ hsub₂ hlive₁ hlive₂ e₁ he₁ e₂ he₂ hsession
    have hsep := separated_of_run hgone hdistinct
    have hwritten := okWritten_of_run ls
    refine ⟨_, _, announcedAs_of_listed hsep.lifecycle hwritten hsub₁ he₁,
      announcedAs_of_listed hsep.lifecycle hwritten hsub₂ he₂, fun halias => hne ?_⟩
    -- one publisher would use the alias for both tracks
    have hest₁ := hlive₁.established hsep.lifecycle hsub₁
    have hest₂ := hlive₂.established hsep.lifecycle hsub₂
    rw [onePublisher_of_run hapart track₁ track₂ sub₁ sub₂ hsub₁ hsub₂ e₁ he₁ e₂ he₂ hsession
      halias, halias] at hest₁
    exact hsep.unique _ _ track₂ track₁ hest₂ hest₁
  · intro s d hd
    obtain ⟨i, t, ht, hs, hheader, ls₁, ⟨ls₂, rfl⟩, hmem⟩ := (Forwards.of_run ls).opened s d hd
    have hsep : Separated (relay.run .new ls₁) :=
      separated_of_run (Machine.meets_append.mp hgone).1 (Machine.meets_append.mp hdistinct).1
    obtain ⟨track, htrack, sub, hsub, -, halias, e, he, hsession⟩ :=
      hsep.lookupRight _ _ d.session hmem
    refine ⟨i, t, ht, hs, ls₁, track, sub, List.prefix_append ls₁ ls₂, htrack, hsub, e, he,
      hsession, ?_⟩
    rw [hheader, ← halias]
    exact announcedAs_of_listed hsep.lifecycle (okWritten_of_run ls₁) hsub he

/-- One session subscribes to the tracks of two publishers that use the same alias. -/
def aliasShared : List Label :=
  [Label.connect, .connect, .connect] ++ Schedule.announce 0 0 ⟨[[1]]⟩ ++
    Schedule.announce 1 1 ⟨[[2]]⟩ ++ Schedule.ask 2 0 ⟨[[1]]⟩ [0x61] ++
    Schedule.fetchUpstream 0 7 ++ [Label.subscribe 0 (.responded 0 true)] ++
    Schedule.ask 2 1 ⟨[[2]]⟩ [0x61] ++ Schedule.fetchUpstream 1 7 ++
    [Label.subscribe 1 (.responded 1 true)]

set_option maxRecDepth 4096 in
theorem not_aliasesTell_aliasShared :
    ¬∀ ls, relay.Meets AliasesDistinct .new ls → AliasesTell ls := by
  intro h
  have htracks := (h aliasShared (by decide)).tracks ⟨⟨[[1]]⟩, "a"⟩ ⟨⟨[[2]]⟩, "a"⟩
    ⟨0, 7, ⟨0, ⟨7, [], []⟩⟩, [⟨2, 0⟩]⟩ ⟨1, 7, ⟨1, ⟨7, [], []⟩⟩, [⟨2, 1⟩]⟩ (by decide) (by decide)
    (by decide) (by decide) (by decide) ⟨2, 0⟩ (by decide) ⟨2, 1⟩ (by decide) rfl
  obtain ⟨alias₁, alias₂, ⟨t₁, answer₁, ht₁, hok₁, rfl, -⟩,
    ⟨t₂, answer₂, ht₂, hok₂, rfl, -⟩, hne⟩ := htracks
  have hseven : ∀ r < 2, ∀ t ∈ (relay.run .new aliasShared).task r, ∀ answer ∈ t.subscribeOk,
      answer.message.trackAlias = 7 := by decide
  rw [hseven 0 (by decide) t₁ ht₁ answer₁ hok₁, hseven 1 (by decide) t₂ ht₂ answer₂ hok₂] at hne
  exact hne rfl

/-- One session subscribes to the tracks of two publishers with different aliases, and gets a data
stream of the second. -/
theorem aliasesTell_twoPublishers : AliasesTell
    ([Label.connect, .connect, .connect] ++ Schedule.announce 0 0 ⟨[[1]]⟩ ++
      Schedule.announce 1 1 ⟨[[2]]⟩ ++ Schedule.ask 2 0 ⟨[[1]]⟩ [0x61] ++
      Schedule.fetchUpstream 0 7 ++ [Label.subscribe 0 (.responded 0 true)] ++
      Schedule.ask 2 1 ⟨[[2]]⟩ [0x61] ++ Schedule.fetchUpstream 1 8 ++
      [Label.subscribe 1 (.responded 1 true),
        .event 1 (.dataStream ⟨8, 0, false, false, none, some 128⟩), .dataStream 0 .proceed,
        .dataStream 0 (.opened true)]) :=
  aliasesTell_of_listsApart _ (by decide) (by decide) (by decide)

end Moqt.Relay
