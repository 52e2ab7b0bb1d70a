import Moqt.Relay.History

/-! The filter NextGroupStart.  It asks for the groups behind those that had been received when the
subscriber was recorded.  The relay takes it as the only filter that it supports, and from then on
does not look at it: what a subscriber gets is settled for each data stream when its subscribers are
looked up. -/

namespace Moqt.Relay

open Library Wire

/-- The SUBSCRIBE carries the filter NextGroupStart. -/
def SubscribeTask.AsksNextGroup (u : SubscribeTask) : Prop :=
  MessageParameter.subscriptionFilter .nextGroupStart ∈ u.message.parameters

instance (u : SubscribeTask) : Decidable u.AsksNextGroup :=
  inferInstanceAs (Decidable (_ ∈ _))

/-- The group passes the filter of the subscriber `k`: it is behind the largest one that had been
received of the track when the subscriber was recorded. -/
def Passes (n : Network) (h : History) (k : RequestId) (group : UInt64) : Prop :=
  ∀ u ∈ n.world.task k, u.AsksNextGroup → ∀ largest ∈ h.largest k, largest < group

instance (n : Network) (h : History) (k : RequestId) (group : UInt64) :
    Decidable (Passes n h k group) :=
  -- not by trying every group
  have : Decidable (∀ largest ∈ h.largest k, largest < group) :=
    Option.decidableForallMem _
  inferInstanceAs (Decidable (∀ u ∈ n.world.task k, u.AsksNextGroup → ∀ largest ∈ h.largest k, _))

/-- Every object that has been written to a subscriber is of a group that passes its filter. -/
def NextGroupHonoured (n : Network) (h : History) : Prop :=
  ∀ (s : StreamId) (i : Nat) (k : RequestId) (d : Downstream), h.served[s]? = some (i, k) →
    n.world.streams[s]? = some d → d.objects ≠ [] → Passes n h k d.header.groupId

/-- The data stream whose subscribers are looked up is of a group that passes the filter of each
subscriber of its publisher and alias. -/
def LooksUpPassing (x : Network × History) : NetworkLabel → Prop
  | .relay (.dataStream i .proceed) => ∀ t ∈ x.1.world.dataStreams[i]?, t.pc = .lookup →
      ∀ sub ∈ x.1.world.state.subscriptions.values, sub.publisherSession = t.senderSession →
        sub.publisherTrackAlias = t.header.trackAlias →
          ∀ e ∈ sub.subscribers, Passes x.1 x.2 e.request t.header.groupId
  | _ => True

instance (x : Network × History) : (l : NetworkLabel) → Decidable (LooksUpPassing x l)
  | .relay (.dataStream i .proceed) => inferInstanceAs (Decidable
      (∀ t ∈ x.1.world.dataStreams[i]?, t.pc = .lookup →
        ∀ sub ∈ x.1.world.state.subscriptions.values, sub.publisherSession = t.senderSession →
          sub.publisherTrackAlias = t.header.trackAlias →
            ∀ e ∈ sub.subscribers, Passes x.1 x.2 e.request t.header.groupId))
  | .relay (.dataStream _ (.opened _)) | .relay (.dataStream _ (.wrote _))
  | .relay (.dataStream _ (.responded _ _)) | .relay (.dataStream _ (.response _))
  | .relay (.dataStream _ (.object _)) | .relay .connect | .relay (.event _ _)
  | .relay (.eventError _) | .relay (.removeSession _) | .relay (.publishNamespace _ _)
  | .relay (.subscribe _ _) | .openBi _ _ | .openUni _ _ | .close _ | .answer _ _ => isTrue trivial

/-! ### Subscribers that are recorded -/

/-- The task has not recorded its subscriber. -/
def SubscribePc.unlisted : SubscribePc → Bool
  | .record => true
  | pc => pc.unanswered

/-- The subscriber has been recorded. -/
def World.Listed (w : World) (k : RequestId) : Prop :=
  ∃ u, w.task k = some u ∧ u.pc.unlisted = false

theorem TaskStep.message {w : World} {l : Label} {j : RequestId} {t t' : SubscribeTask}
    (h : TaskStep w l j (some t) (some t')) : t'.message = t.message := by
  cases h with
  | kept hagree => exact hagree.message
  | moved hl hagree hmove =>
    rw [hagree.message]
    cases hmove <;> rfl

theorem World.Listed.step {w w' : World} {l : Label} {k : RequestId} (h : w.Listed k)
    (hstep : Step w l w') : w'.Listed k := by
  obtain ⟨u, hu, hpc⟩ := h
  obtain ⟨u', hu'⟩ := hstep.after hu
  refine ⟨u', hu', Bool.eq_false_iff.mpr fun hpc' => ?_⟩
  have hanswered : u.pc.unanswered = false := by
    cases h : u.pc <;> simp_all [SubscribePc.unlisted]
  have hk := hstep.task k
  rw [hu, hu'] at hk
  cases hk with
  | kept hagree =>
    rw [hagree.pc, hpc] at hpc'
    cases hpc'
  | moved hl hagree hmove =>
    rw [hagree.pc] at hpc'
    cases hmove with
    | early hpc₀ =>
      rw [SubscribePc.unanswered_of_early hpc₀] at hanswered
      cases hanswered
    | search hpc₀ =>
      rw [SubscribePc.unanswered_of_searching hpc₀] at hanswered
      cases hanswered
    | lock hpc₀ | vacant hpc₀ | answered hpc₀ =>
      rw [hpc₀] at hanswered
      cases hanswered
    | notify hpc₀ =>
      change u.pc.unlisted = true at hpc'
      rw [hpc] at hpc'
      cases hpc'
    | _ => cases hpc'

/-- Those who are in an entry have been recorded. -/
theorem Lifecycle.listed {w : World} (h : Lifecycle w) {track : FullTrackName} {sub : Subscription}
    (hsub : w.state.subscriptions.lookup track = some sub) {e : SubscriberEntry}
    (he : e ∈ sub.subscribers) : w.Listed e.request := by
  obtain ⟨u, hu, -, htrack, hok⟩ := h.upstreams.listed track sub hsub e he
  refine ⟨u, hu, Bool.eq_false_iff.mpr fun hpc => ?_⟩
  unfold SubscribePc.unlisted at hpc
  split at hpc
  next hrecord =>
    rw [h.locks.vacant _ u track hu (by rw [hrecord]; rfl) htrack] at hsub
    cases hsub
  · rw [(h.formed _ u hu).unanswered hpc] at hok
    cases hok

/-- A step records none but those who have not been. -/
theorem World.not_listed_of_recordsFor {w : World} {k : RequestId} {track : FullTrackName}
    (h : w.recordsFor k = some track) : ¬w.Listed k := by
  rintro ⟨u, hu, hpc⟩
  simp only [recordsFor, hu, Option.bind_eq_bind, Option.bind_some,
    Option.bind_eq_some_iff] at h
  obtain ⟨track₁, -, h⟩ := h
  split at h
  next hpc₀ =>
    rw [hpc₀] at hpc
    cases hpc
  next hpc₀ =>
    rw [hpc₀] at hpc
    cases hpc
  · cases h

/-- What had been received when a subscriber was recorded is settled. -/
theorem History.note_largest {n : Network} {h : History} {l : NetworkLabel} {k : RequestId}
    (hlisted : n.world.Listed k) : (note n h l).largest k = h.largest k := by
  unfold note
  split
  · rfl
  next j =>
    unfold subscribe
    split
    next track hrecords =>
      have hne : k ≠ j := by
        rintro rfl
        exact World.not_listed_of_recordsFor hrecords hlisted
      simp [hne]
    · rfl
  · split
    · unfold dataStream
      split <;> rfl
    · rfl
  · rfl

/-! ### Runs -/

/-- The subscriber has been recorded, and the group passes its filter. -/
def Admits (n : Network) (h : History) (k : RequestId) (group : UInt64) : Prop :=
  n.world.Listed k ∧ Passes n h k group

theorem Admits.step {n n' : Network} {h : History} {l : NetworkLabel} {k : RequestId}
    {group : UInt64} (hadmits : Admits n h k group) (hstep : NetworkStep n l n') :
    Admits n' (History.note n h l) k group := by
  obtain ⟨hlisted, hpasses⟩ := hadmits
  have hlargest : (History.note n h l).largest k = h.largest k := History.note_largest hlisted
  rcases hstep.world with ⟨l', -, hworld⟩ | ⟨-, hsame⟩
  · have hworld := Step.of_step hworld
    refine ⟨hlisted.step hworld, fun u' hu' hasks largest hmem => ?_⟩
    obtain ⟨u, hu, -⟩ := hlisted
    have hk := hworld.task k
    rw [hu, show n'.world.task k = some u' from hu'] at hk
    rw [hlargest] at hmem
    rw [SubscribeTask.AsksNextGroup, hk.message] at hasks
    exact hpasses u hu hasks largest hmem
  · rw [Admits, Passes, hsame, hlargest]
    exact ⟨hlisted, hpasses⟩

/-- Streams are opened, and will be, only for subscribers whose filters their groups pass. -/
structure Filtered (n : Network) (h : History) : Prop where
  pending : ∀ (i : Nat) (t : DataStreamTask) (todo : List MoqtSession),
    n.world.dataStreams[i]? = some t → t.pc = .openStreams todo →
      ∀ k ∈ h.pending i, Admits n h k t.header.groupId
  served : ∀ (s : StreamId) (i : Nat) (k : RequestId) (d : Downstream),
    h.served[s]? = some (i, k) → n.world.streams[s]? = some d → Admits n h k d.header.groupId

theorem Filtered.new : Filtered .new .new where
  pending i t todo ht := by simp [Network.new, World.new] at ht
  served s i k d hk := by simp [History.new] at hk

theorem Filtered.step {n n' : Network} {h : History} {l : NetworkLabel} (hfiltered : Filtered n h)
    (hlife : Lifecycle n.world) (hattributed : Attributed n h) (hl : LooksUpPassing (n, h) l)
    (hstep : NetworkStep n l n') : Filtered n' (History.note n h l) where
  pending i t' todo' ht' hpc' k hk := by
    refine Admits.step ?_ hstep
    cases History.pendingOrigin hstep ht' hpc' with
    | kept ht hheader hpc hpending =>
      rw [hheader]
      exact hfiltered.pending i _ todo' ht hpc k (hpending ▸ hk)
    | found hlabel ht hheader hpc htodo hpending =>
      subst hlabel
      rw [hpending] at hk
      obtain ⟨e, he, rfl⟩ := List.mem_map.mp hk
      obtain ⟨-, track, sub, hsub, hpublisher, halias, hmem⟩ :=
        RelayState.mem_findSubscriberEntries.mp he
      rw [hheader]
      exact ⟨hlife.listed hsub hmem,
        hl _ ht hpc sub (Map.mem_values.mpr ⟨track, hsub⟩) hpublisher halias e hmem⟩
    | tried ok hlabel ht hheader hpc hpending =>
      rw [hheader]
      exact hfiltered.pending i _ _ ht hpc k (List.mem_of_mem_tail (hpending ▸ hk))
  served s i k d' hk hd' := by
    refine Admits.step ?_ hstep
    cases (hattributed.streamsNoted hstep).origin s i k d' hk hd' with
    | kept hold hd hsession hheader =>
      rw [hheader]
      exact hfiltered.served s i k _ hold hd
    | opened hlabel ht hpc hhead hheader =>
      rw [hheader]
      exact hfiltered.pending _ _ _ ht hpc k (List.mem_of_mem_head? hhead)

/-- If every data stream is of a group that passes the filters of the subscribers it is looked up
for, no subscriber gets an object that its filter keeps out. -/
theorem nextGroupHonoured_of_looksUpPassing {ls : List NetworkLabel}
    (h : recorded.Meets LooksUpPassing recorded.init ls) :
    NextGroupHonoured (recorded.run recorded.init ls).1 (recorded.run recorded.init ls).2 := by
  have hfiltered :
      Filtered (recorded.run recorded.init ls).1 (recorded.run recorded.init ls).2 := by
    refine Machine.induction (I := fun x => Filtered x.1 x.2) .new ?_ h
    intro x l x' hreachable hx hl hstep
    obtain ⟨hstep, hnote⟩ := recorded_step hstep
    have hknown := known_of_reachable (reachable_world hreachable.of_withHistory)
    rw [hnote]
    exact hx.step hknown.lifecycle (attributed_of_reachable hreachable) hl hstep
  exact fun s i k d hk hd _ => (hfiltered.served s i k d hk hd).2

/-- The connection `c` subscribes to the track `a` from the next group on; the task `k` joins the
existing subscription. -/
def Schedule.joinNextGroup (c : ConnectionId) (k : RequestId) : List NetworkLabel :=
  .openBi c { bytes := [3, 0, 11, 0, 0, 1, 1, 1, 1, 97, 1, 33, 1, 1], ending := .finished } ::
    (.event c (.subscribe ⟨0, 0, ⟨[[1]]⟩, [97], [.subscriptionFilter .nextGroupStart]⟩) ::
      (List.replicate 4 (Label.subscribe k .proceed) ++
        [Label.subscribe k (.responded k true)])).map .relay

/-- A stream of the group 2 has been relayed to a subscriber, when another one joins; the stream
`content` that comes next is relayed to both. -/
def relayToJoined (header : SubgroupHeader) (content : ByteStream) : List NetworkLabel :=
  relayTo ⟨[0x10, 7, 2, 128, 0, 1, 97], .finished, Schedule.oneObject_fits⟩
    [.object (some (some ⟨[0, 1], [97]⟩)), .wrote true, .proceed] ++
    [NetworkLabel.relay .connect] ++ Schedule.joinNextGroup 2 1 ++
    [NetworkLabel.openUni 0 content, .relay (.event 0 (.dataStream header))] ++
    ([.proceed, .opened true, .opened true, .proceed, .object (some (some ⟨[0, 1], [98]⟩)),
      .wrote true, .wrote true] : List Input).map
        fun input => NetworkLabel.relay (.dataStream 1 input)

/-- The second stream is another subgroup of the group that has been received. -/
def joinedWithinGroup : List NetworkLabel :=
  relayToJoined ⟨7, 2, false, false, some 1, some 128⟩
    { bytes := [0x14, 7, 2, 1, 128, 0, 1, 98], ending := .finished }

theorem not_nextGroupHonoured_joinedWithinGroup :
    ¬∀ ls, NextGroupHonoured (recorded.run recorded.init ls).1
      (recorded.run recorded.init ls).2 := by
  intro h
  have hhonoured := h joinedWithinGroup
  have hwritten : (recorded.run recorded.init joinedWithinGroup).2.served[2]? = some (1, 1) ∧
      (recorded.run recorded.init joinedWithinGroup).2.largest 1 = some 2 ∧
      ∃ u ∈ (recorded.run recorded.init joinedWithinGroup).1.world.task 1, u.AsksNextGroup ∧
        ∃ d ∈ (recorded.run recorded.init joinedWithinGroup).1.world.streams[2]?,
          d.objects ≠ [] ∧ d.header.groupId = 2 := by decide +kernel
  generalize recorded.run recorded.init joinedWithinGroup = x at hhonoured hwritten
  obtain ⟨hk, hlargest, u, hu, hasks, d, hd, hobjects, hgroup⟩ := hwritten
  have hlt := hhonoured 2 1 1 d hk hd hobjects u hu hasks 2 hlargest
  rw [hgroup] at hlt
  exact absurd hlt (by decide)

/-- The second stream is of the next group. -/
def joinedBetweenGroups : List NetworkLabel :=
  relayToJoined ⟨7, 3, false, false, some 1, some 128⟩
    { bytes := [0x14, 7, 3, 1, 128, 0, 1, 98], ending := .finished }

theorem nextGroupHonoured_joinedBetweenGroups :
    NextGroupHonoured (recorded.run recorded.init joinedBetweenGroups).1
      (recorded.run recorded.init joinedBetweenGroups).2 :=
  nextGroupHonoured_of_looksUpPassing (by decide +kernel)

end Moqt.Relay
