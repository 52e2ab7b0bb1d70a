import Moqt.Relay.StreamCount

/-! Who is delivered a stream more than once.  The aggregation adds whoever subscribes to the
subscribers of the track, also a session that is one of them already.  As long as none of those
does, a lookup finds each session once for a track, and a data stream is opened once to it. -/

namespace Moqt.Relay

open Library Wire

/-- The track that the task `k` has asked for. -/
def World.trackFor (w : World) (k : RequestId) : Option FullTrackName :=
  (w.task k).bind fun t => t.track

/-- What a lookup returns, each session with the track for which it is found. -/
def World.found (w : World) (publisher : SessionId) (trackAlias : UInt64) :
    List (Option FullTrackName × MoqtSession) :=
  ((w.state.findSubscriberEntries publisher trackAlias).map fun e => w.trackFor e.request).zip
    (w.state.findSubscriberSessions publisher trackAlias)

/-- No session is delivered a track twice: it is listed once, found once, and a data stream is
opened to it once. -/
structure DeliversOnce (n : Network) (h : History) : Prop where
  listed : ∀ (track : FullTrackName) (sub : Subscription),
    n.world.state.subscriptions.lookup track = some sub → (sub.subscribers.map (·.sessionId)).Nodup
  found : ∀ (publisher : SessionId) (trackAlias : UInt64),
    (n.world.found publisher trackAlias).Nodup
  opened : ∀ (i : Nat) (s₁ s₂ : StreamId) (k₁ k₂ : RequestId) (d₁ d₂ : Downstream),
    h.served[s₁]? = some (i, k₁) → h.served[s₂]? = some (i, k₂) →
    n.world.streams[s₁]? = some d₁ → n.world.streams[s₂]? = some d₂ →
    n.world.trackFor k₁ = n.world.trackFor k₂ → d₁.session = d₂.session → s₁ = s₂

/-- No session joins a subscription that lists it already. -/
def JoinsOnce (x : Network × History) : NetworkLabel → Prop
  | .relay (.subscribe k .proceed) => ∀ t ∈ x.1.world.task k, t.pc = .aggregate →
      ∀ track ∈ t.track, ∀ sub ∈ x.1.world.state.subscriptions.lookup track,
        t.session ∉ sub.subscribers.map (·.sessionId)
  | _ => True

section

variable {n n' : Network} {h : History} {l : NetworkLabel}

/-! ### Who is listed -/

/-- Each subscription lists a session once. -/
def ListedOnce (n : Network) : Prop :=
  ∀ (track : FullTrackName) (sub : Subscription),
    n.world.state.subscriptions.lookup track = some sub → (sub.subscribers.map (·.sessionId)).Nodup

theorem ListedOnce.new : ListedOnce .new := fun _ _ hsub => absurd hsub World.not_lookup_new

theorem ListedOnce.step (hlisted : ListedOnce n) (hlocks : Locks n.world) (hl : JoinsOnce (n, h) l)
    (hstep : NetworkStep n l n') : ListedOnce n' := by
  intro track sub' hsub'
  rcases hstep.world with ⟨l', rfl, hworld⟩ | ⟨-, hsame⟩
  · cases (Step.of_step hworld).subOrigin hlocks hsub' with
    | old hsub hheader hsublist => exact (hlisted track _ hsub).sublist (hsublist.map _)
    | joined heq ht hpc htrack hsub ht' hpush =>
      subst heq
      rw [hpush, Subscription.push, List.map_append]
      have hnew := hl _ ht hpc track htrack _ hsub
      refine (hlisted track _ hsub).append (List.nodup_singleton _) ?_
      intro id hid hsession
      rw [List.map_singleton, List.mem_singleton] at hsession
      rw [hsession] at hid
      exact hnew hid
    | recorded heq ht hpc htrack hpublisher hanswer ht' hnew =>
      rw [hnew]
      exact List.nodup_singleton _
  · rw [hsame] at hsub'
    exact hlisted track sub' hsub'

/-- A session that joins a subscription that lists it already is listed twice. -/
theorem not_listedOnce_of_not_joinsOnce (hstep : NetworkStep n l n') (hl : ¬JoinsOnce (n, h) l) :
    ¬ListedOnce n' := by
  intro hlisted
  unfold JoinsOnce at hl
  split at hl
  next k =>
    simp only [not_forall, not_not] at hl
    obtain ⟨t, ht, hpc, track, htrack, sub, hsub, hmem⟩ := hl
    rcases hstep.world with ⟨l', heq, hworld⟩ | ⟨hother, -⟩
    · obtain rfl := NetworkLabel.relay.inj heq
      cases Step.of_step hworld with
      | subscribe ht₀ hs =>
        obtain rfl := Option.mem_unique ht ht₀
        generalize hw : n'.world = w' at hs
        cases hs with
        | @join hpc' track' existing htrack' hfree hexisting =>
          obtain rfl := Option.mem_unique htrack htrack'
          obtain rfl := Option.mem_unique hsub hexisting
          have hafter : n'.world.state.subscriptions.lookup track =
              some (sub.push ⟨t.session, k⟩) := by
            rw [hw]
            exact RelayState.lookup_pushSubscriber.mpr (.inl ⟨rfl, rfl⟩)
          have hnodup := hlisted track _ hafter
          rw [Subscription.push, List.map_append, List.map_singleton] at hnodup
          exact List.disjoint_of_nodup_append hnodup hmem (List.mem_singleton_self _)
        | @vacant hpc' track' htrack' hfree hvacant =>
          obtain rfl := Option.mem_unique htrack htrack'
          rw [hvacant] at hsub
          cases hsub
        | silent hexit hsilent => simp [SilentExit, hpc] at hsilent
        | _ hpc' =>
          rw [hpc] at hpc'
          cases hpc'
    · exact hother _ rfl
  · exact hl trivial

/-! ### Who is found -/

/-- The session of an entry is that of its request. -/
theorem findSubscriberSessions_eq_map (hnumbered : Numbered n.world) (publisher : SessionId)
    (trackAlias : UInt64) : n.world.state.findSubscriberSessions publisher trackAlias =
      (n.world.state.findSubscriberEntries publisher trackAlias).map fun e => ⟨e.sessionId⟩ := by
  rw [← List.forall₂_eq_eq_eq, List.forall₂_map_right_iff]
  refine (RelayState.findSubscriberEntries_sessions.flip).imp fun session e hlookup => ?_
  exact MoqtSession.ext (hnumbered.session _ _ hlookup)

theorem ListedOnce.found (hlisted : ListedOnce n) (hlife : Lifecycle n.world)
    (hnumbered : Numbered n.world) (publisher : SessionId) (trackAlias : UInt64) :
    (n.world.found publisher trackAlias).Nodup := by
  have htracks (track : FullTrackName) (sub : Subscription)
      (hsub : n.world.state.subscriptions.lookup track = some sub) (e : SubscriberEntry)
      (he : e ∈ sub.subscribers) : n.world.trackFor e.request = some track := by
    obtain ⟨u, hu, -, htrack, -⟩ := hlife.upstreams.listed track sub hsub e he
    rw [World.trackFor, hu, Option.bind_some, htrack]
  rw [World.found, findSubscriberSessions_eq_map hnumbered, List.zip_map']
  refine RelayState.nodup_findSubscriberEntries ?_ ?_
  · intro track sub hsub
    refine List.Nodup.of_map (fun p => p.2.connection) ?_
    rw [List.map_map]
    exact hlisted track sub hsub
  · intro track sub track' sub' hsub hsub' e he e' he' hsame
    have hkey := congrArg Prod.fst hsame
    rw [htracks track sub hsub e he, htracks track' sub' hsub' e' he'] at hkey
    exact Option.some.inj hkey

/-! ### For whom streams are opened -/

/-- The track and the session of the task `k`. -/
def World.party (w : World) (k : RequestId) : Option (Option FullTrackName × SessionId) :=
  (w.task k).map fun t => (t.track, t.session)

/-- The task `k` has a SUBSCRIBE_OK. -/
def World.HasAnswer (w : World) (k : RequestId) : Prop :=
  ∃ t, w.task k = some t ∧ ∃ answer, t.subscribeOk = some answer

theorem World.HasAnswer.step {k : RequestId} (hanswer : n.world.HasAnswer k)
    (hformed : Formed n.world) (hstep : NetworkStep n l n') :
    n'.world.HasAnswer k ∧ n'.world.party k = n.world.party k := by
  obtain ⟨t, ht, answer, hok⟩ := hanswer
  rcases hstep.world with ⟨l', -, hworld⟩ | ⟨-, hsame⟩
  · obtain ⟨t', ht', hkeeps⟩ := (Step.of_step hworld).keeps hformed ht hok
    refine ⟨⟨t', ht', answer, hkeeps.subscribeOk.trans hok⟩, ?_⟩
    rw [World.party, World.party, ht, ht', Option.map_some, Option.map_some, hkeeps.track,
      hkeeps.session]
  · rw [hsame]
    exact ⟨⟨t, ht, answer, hok⟩, rfl⟩

/-- For whom streams of the data stream `i` have been opened, and will be. -/
def History.allotted (h : History) (i : Nat) : List RequestId :=
  (h.served.filter fun e => e.1 = i).map (·.2) ++ h.pending i

/-- Streams are opened for answered SUBSCRIBEs, and no two for a track and a session. -/
structure AllotsOnce (n : Network) (h : History) : Prop where
  fresh : ∀ i, ¬n.HasLookedUp i → h.allotted i = []
  answered : ∀ i, ∀ k ∈ h.allotted i, n.world.HasAnswer k
  nodup : ∀ i, ((h.allotted i).map n.world.party).Nodup

theorem AllotsOnce.new : AllotsOnce .new .new where
  fresh _ _ := rfl
  answered _ _ hk := by cases hk
  nodup _ := List.nodup_nil

/-- What a step makes of those for whom streams are opened: some of them are left, or a lookup finds
some. -/
theorem FoundMove.allotted {h' : History} (hmove : FoundMove n n' h h' l) (i : Nat) :
    (h'.allotted i).Sublist (h.allotted i) ∨ ∃ t t', n.world.dataStreams[i]? = some t ∧
      t.pc = .lookup ∧ n'.world.dataStreams[i]? = some t' ∧ t'.pc ≠ .lookup ∧
      h'.allotted i = (h.served.filter fun e => e.1 = i).map (·.2) ++
        (n.world.state.findSubscriberEntries t.senderSession t.header.trackAlias).map
          (·.request) := by
  cases hmove with
  | same hfound hpending _ hserved =>
    left
    rw [History.allotted, hserved, hpending]
    exact List.Sublist.refl _
  | @found j t t' found ht hpc ht' hpc' hentries hfound hpending _ hserved =>
    by_cases hij : i = j
    · subst hij
      refine .inr ⟨t, t', ht, hpc, ht', hpc', ?_⟩
      rw [History.allotted, hserved, hpending, Function.update_self, hentries]
    · left
      rw [History.allotted, hserved, hpending, Function.update_of_ne hij]
      exact List.Sublist.refl _
  | @opened j k rest _ _ hold hfound hpending _ hserved =>
    left
    rw [History.allotted, hserved, hpending, List.filter_append, List.map_append]
    by_cases hij : i = j
    · subst hij
      rw [Function.update_self, History.allotted, hold]
      simp
    · rw [Function.update_of_ne hij, History.allotted]
      simp [Ne.symm hij]
  | @skipped j _ _ hl hfound hpending _ hserved =>
    left
    rw [History.allotted, hserved, hpending]
    by_cases hij : i = j
    · subst hij
      rw [Function.update_self]
      exact (List.tail_sublist _).append_left _
    · rw [Function.update_of_ne hij]
      exact List.Sublist.refl _

/-- Those whom a lookup finds have been answered, and differ in their tracks or sessions. -/
theorem ListedOnce.parties (hlisted : ListedOnce n) (hlife : Lifecycle n.world)
    (publisher : SessionId) (trackAlias : UInt64) :
    (∀ k ∈ (n.world.state.findSubscriberEntries publisher trackAlias).map (·.request),
      n.world.HasAnswer k) ∧
    (((n.world.state.findSubscriberEntries publisher trackAlias).map (·.request)).map
      n.world.party).Nodup := by
  have hparty (track : FullTrackName) (sub : Subscription)
      (hsub : n.world.state.subscriptions.lookup track = some sub) (e : SubscriberEntry)
      (he : e ∈ sub.subscribers) : n.world.HasAnswer e.request ∧
        n.world.party e.request = some (some track, e.sessionId) := by
    obtain ⟨u, hu, hsession, htrack, hok⟩ := hlife.upstreams.listed track sub hsub e he
    refine ⟨⟨u, hu, _, hok⟩, ?_⟩
    rw [World.party, hu, Option.map_some, htrack, hsession]
  constructor
  · intro k hk
    obtain ⟨e, he, rfl⟩ := List.mem_map.mp hk
    obtain ⟨-, track, sub, hsub, -, -, hmem⟩ := RelayState.mem_findSubscriberEntries.mp he
    exact (hparty track sub hsub e hmem).1
  · rw [List.map_map]
    refine RelayState.nodup_findSubscriberEntries ?_ ?_
    · intro track sub hsub
      have hsame : sub.subscribers.map (n.world.party ∘ fun e => e.request) =
          (sub.subscribers.map (·.sessionId)).map fun id => some (some track, id) := by
        rw [List.map_map]
        exact List.map_congr_left fun e he => (hparty track sub hsub e he).2
      rw [hsame]
      refine (hlisted track sub hsub).map fun a b hab => ?_
      exact (Prod.mk.inj (Option.some.inj hab)).2
    · intro track sub track' sub' hsub hsub' e he e' he' hsame
      have hkey := hsame
      rw [Function.comp_apply, Function.comp_apply, (hparty track sub hsub e he).2,
        (hparty track' sub' hsub' e' he').2] at hkey
      exact Option.some.inj (Prod.mk.inj (Option.some.inj hkey)).1

theorem AllotsOnce.step (hallots : AllotsOnce n h) (hattributed : Attributed n h)
    (hlife : Lifecycle n.world) (hlisted : ListedOnce n) (hstep : NetworkStep n l n') :
    AllotsOnce n' (History.note n h l) := by
  -- what is true of those for whom streams are opened in the old state is true in the new one
  have before (i : Nat) : (¬n'.HasLookedUp i → (History.note n h l).allotted i = []) ∧
      (∀ k ∈ (History.note n h l).allotted i, n.world.HasAnswer k) ∧
      (((History.note n h l).allotted i).map n.world.party).Nodup := by
    rcases (hattributed.foundMove hstep).allotted i with
      hsublist | ⟨t, t', ht, hpc, ht', hpc', heq⟩
    · refine ⟨fun hnot => ?_, fun k hk => hallots.answered i k (hsublist.subset hk),
        (hallots.nodup i).sublist (hsublist.map _)⟩
      rw [hallots.fresh i fun hlooked => hnot (hlooked.step hstep)] at hsublist
      exact List.sublist_nil.mp hsublist
    · have hnone : (h.served.filter fun e => e.1 = i).map (·.2) = [] := by
        have hfresh := hallots.fresh i (by
          rintro ⟨t₀, ht₀, hpc₀⟩
          obtain rfl := Option.mem_unique ht ht₀
          exact hpc₀ hpc)
        exact (List.append_eq_nil_iff.mp hfresh).1
      obtain ⟨hanswered, hnodup⟩ := hlisted.parties hlife t.senderSession t.header.trackAlias
      rw [heq, hnone, List.nil_append]
      exact ⟨fun hnot => absurd ⟨t', ht', hpc'⟩ hnot, hanswered, hnodup⟩
  constructor
  · exact fun i => (before i).1
  · exact fun i k hk => (((before i).2.1 k hk).step hlife.formed hstep).1
  · intro i
    obtain ⟨-, hanswered, hnodup⟩ := before i
    have hsame : ((History.note n h l).allotted i).map n'.world.party =
        ((History.note n h l).allotted i).map n.world.party :=
      List.map_congr_left fun k hk => ((hanswered k hk).step hlife.formed hstep).2
    rw [hsame]
    exact hnodup

theorem pairwise_getElem?_inj {α : Type} {R : α → α → Prop} {as : List α} (h : as.Pairwise R)
    (hsymm : ∀ a b, R a b → R b a) {i j : Nat} {a b : α} (ha : as[i]? = some a)
    (hb : as[j]? = some b) (hnot : ¬R a b) : i = j := by
  obtain ⟨hi, rfl⟩ := List.getElem?_eq_some_iff.mp ha
  obtain ⟨hj, rfl⟩ := List.getElem?_eq_some_iff.mp hb
  have hlt := List.pairwise_iff_getElem.mp h
  rcases Nat.lt_trichotomy i j with hij | hij | hij
  · exact absurd (hlt i j hi hj hij) hnot
  · exact hij
  · exact absurd (hsymm _ _ (hlt j i hj hi hij)) hnot

/-- Two streams for a track and a session that come from one data stream are one. -/
theorem AllotsOnce.opened (hallots : AllotsOnce n h) (hattributed : Attributed n h) {i : Nat}
    {s₁ s₂ : StreamId} {k₁ k₂ : RequestId} {d₁ d₂ : Downstream}
    (hk₁ : h.served[s₁]? = some (i, k₁)) (hk₂ : h.served[s₂]? = some (i, k₂))
    (hd₁ : n.world.streams[s₁]? = some d₁) (hd₂ : n.world.streams[s₂]? = some d₂)
    (htrack : n.world.trackFor k₁ = n.world.trackFor k₂) (hsession : d₁.session = d₂.session) :
    s₁ = s₂ := by
  have hparty : n.world.party k₁ = n.world.party k₂ := by
    obtain ⟨u₁, hu₁, hsession₁⟩ := hattributed.served s₁ i k₁ d₁ hk₁ hd₁
    obtain ⟨u₂, hu₂, hsession₂⟩ := hattributed.served s₂ i k₂ d₂ hk₂ hd₂
    rw [hsession₁, hsession₂] at hsession
    rw [World.trackFor, World.trackFor, hu₁, hu₂, Option.bind_some, Option.bind_some] at htrack
    rw [World.party, World.party, hu₁, hu₂, Option.map_some, Option.map_some, htrack,
      MoqtSession.mk.inj hsession]
  have hnodup : (((h.served.filter fun e => e.1 = i).map (·.2)).map n.world.party).Nodup := by
    have hall := hallots.nodup i
    rw [History.allotted, List.map_append] at hall
    exact hall.of_append_left
  rw [List.map_map, List.Nodup, List.pairwise_map, List.pairwise_filter] at hnodup
  refine pairwise_getElem?_inj hnodup ?_ hk₁ hk₂ ?_
  · intro a b hab hb ha heq
    exact hab ha hb heq.symm
  · intro hne
    exact hne (by simp) (by simp) hparty

end

/-! ### Runs -/

/-- No session is delivered a track twice in a run, if and only if none joins a subscription that
lists it already. -/
theorem deliversOnce_iff (ls : List NetworkLabel) :
    (∀ ls', ls' <+: ls → DeliversOnce (recorded.run recorded.init ls').1
      (recorded.run recorded.init ls').2) ↔ recorded.Meets JoinsOnce recorded.init ls := by
  constructor
  · intro h
    by_contra hmeets
    obtain ⟨ls₁, l, ls₂, rfl, hsome, hnot⟩ := Machine.exists_of_not_meets hmeets
    obtain ⟨x', hstep⟩ := Option.isSome_iff_exists.mp hsome
    have hafter := (h (ls₁ ++ [l]) ⟨ls₂, by simp⟩).listed
    rw [Machine.run_append, Machine.run_cons, Machine.run_nil, Machine.next_of_step hstep] at hafter
    exact not_listedOnce_of_not_joinsOnce (recorded_step hstep).1 hnot hafter
  · rintro hmeets ls' ⟨ls₂, rfl⟩
    have hreachable : recorded.Reachable (recorded.run recorded.init ls') := ⟨ls', rfl⟩
    obtain ⟨hlisted, hallots⟩ : ListedOnce (recorded.run recorded.init ls').1 ∧
        AllotsOnce (recorded.run recorded.init ls').1 (recorded.run recorded.init ls').2 := by
      refine Machine.induction (I := fun x => ListedOnce x.1 ∧ AllotsOnce x.1 x.2)
        ⟨.new, .new⟩ ?_ (Machine.meets_append.mp hmeets).1
      rintro x l x' hx ⟨hlisted, hallots⟩ hl hstep
      obtain ⟨hstep, hnote⟩ := recorded_step hstep
      have hlife := (known_of_reachable (reachable_world hx.of_withHistory)).lifecycle
      rw [hnote]
      exact ⟨hlisted.step hlife.locks hl hstep,
        hallots.step (attributed_of_reachable hx) hlife hlisted hstep⟩
    have hknown := known_of_reachable (reachable_world hreachable.of_withHistory)
    refine ⟨hlisted, hlisted.found hknown.lifecycle hknown.numbered, ?_⟩
    intro i s₁ s₂ k₁ k₂ d₁ d₂ hk₁ hk₂ hd₁ hd₂ htrack hsession
    exact hallots.opened (attributed_of_reachable hreachable) hk₁ hk₂ hd₁ hd₂ htrack hsession

/-- A session that has a track subscribes to it again; then there is a data stream of the track. -/
def askedTwice : List NetworkLabel :=
  [NetworkLabel.relay .connect, .relay .connect] ++ Schedule.publish 0 0 ++ Schedule.request 1 0 ++
    Schedule.upstream 0 ++ Schedule.establish 0 ++ Schedule.request 1 1 ++
    Schedule.stream 0 ⟨[0x10, 7, 2, 128, 0, 1, 97], .finished, Schedule.oneObject_fits⟩ ++
    ([.proceed, .opened true, .opened true] : List Input).map
      fun input => NetworkLabel.relay (.dataStream 0 input)

theorem not_deliversOnce_askedTwice : ¬∀ ls, DeliversOnce (recorded.run recorded.init ls).1
    (recorded.run recorded.init ls).2 := by
  intro h
  have honce := h askedTwice
  have htwice : (recorded.run recorded.init askedTwice).2.served = [(0, 0), (0, 1)] ∧
      (recorded.run recorded.init askedTwice).1.world.streams.map (·.session) = [⟨1⟩, ⟨1⟩] ∧
      (recorded.run recorded.init askedTwice).1.world.trackFor 0 =
        (recorded.run recorded.init askedTwice).1.world.trackFor 1 := by decide +kernel
  generalize recorded.run recorded.init askedTwice = x at honce htwice
  obtain ⟨hserved, hstreams, htrack⟩ := htwice
  obtain ⟨d₁, rest, hcons, h₁, hrest⟩ := List.map_eq_cons_iff.mp hstreams
  obtain ⟨d₂, rest, rfl, h₂, -⟩ := List.map_eq_cons_iff.mp hrest
  have hsame := honce.opened 0 0 1 0 1 d₁ d₂ (by rw [hserved]; rfl) (by rw [hserved]; rfl)
    (by rw [hcons]; rfl) (by rw [hcons]; rfl) htrack (h₁.trans h₂.symm)
  cases hsame

end Moqt.Relay
