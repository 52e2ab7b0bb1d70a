import Moqt.Library.Game
import Moqt.Relay.Fidelity
import Moqt.Relay.Orderly

/-! The relay comes to its end.  Tasks wait for the mutex of the state, for the locks of tracks and
for peers; from every state, whatever the peers do, a scheduler can bring all of them to return. -/

namespace Moqt.Relay

open Library Wire

/-! ### Labels and their tasks -/

/-- The task whose step the label is. -/
def NetworkLabel.owner : NetworkLabel → Option TaskId
  | .relay (.event c _) | .relay (.eventError c) | .relay (.removeSession c) => some (.connection c)
  | .relay (.publishNamespace i _) => some (.publishNamespace i)
  | .relay (.subscribe k _) => some (.subscribe k)
  | .relay (.dataStream i _) => some (.dataStream i)
  | _ => none

theorem NetworkLabel.eq_of_owner_subscribe {l : NetworkLabel} {k : RequestId}
    (h : l.owner = some (.subscribe k)) : ∃ input, l = .relay (.subscribe k input) := by
  unfold owner at h
  split at h
  all_goals simp_all

theorem NetworkLabel.eq_of_owner_publishNamespace {l : NetworkLabel} {i : Nat}
    (h : l.owner = some (.publishNamespace i)) :
    ∃ input, l = .relay (.publishNamespace i input) := by
  unfold owner at h
  split at h
  all_goals simp_all

theorem NetworkLabel.eq_of_owner_dataStream {l : NetworkLabel} {i : Nat}
    (h : l.owner = some (.dataStream i)) : ∃ input, l = .relay (.dataStream i input) := by
  unfold owner at h
  split at h
  all_goals simp_all

theorem NetworkLabel.eq_of_owner_connection {l : NetworkLabel} {c : ConnectionId}
    (h : l.owner = some (.connection c)) : (∃ event, l = .relay (.event c event)) ∨
      l = .relay (.eventError c) ∨ l = .relay (.removeSession c) := by
  unfold owner at h
  split at h
  all_goals simp_all

/-- The network lets the relay take a step. -/
theorem Network.step_of_deliver {n n₁ : Network} {l : Label} {w' : World}
    (hdeliver : n.deliver l = some n₁) (hstep : Relay.relay.step n₁.world l = some w') :
    network.step n (.relay l) = some { n₁ with world := w' } := by
  show n.step (.relay l) = _
  simp only [Network.step, hdeliver, hstep, Option.bind_eq_bind, Option.bind_some, Option.pure_def]

theorem Network.relayed {n n' : Network} {l : Label} (h : network.step n (.relay l) = some n') :
    Step n.world l n'.world := by
  rcases (NetworkStep.of_step h).world with ⟨l', heq, hstep⟩ | ⟨hother, -⟩
  · obtain rfl := NetworkLabel.relay.inj heq
    exact .of_step hstep
  · exact absurd rfl (hother l)

/-! ### All tasks return -/

/-- No handler of a SUBSCRIBE is left. -/
def SubscribesReturned (w : World) : Prop :=
  ∀ (k : RequestId) (t : SubscribeTask), w.task k = some t → t.pc = .returned

def NamespacesReturned (w : World) : Prop :=
  ∀ (i : Nat) (t : PublishNamespaceTask), w.publishNamespaces[i]? = some t → t.pc = .returned

def StreamsReturned (w : World) : Prop :=
  ∀ (i : Nat) (t : DataStreamTask), w.dataStreams[i]? = some t → t.pc = .returned

/-- The sessions of connections that have left their loop are removed. -/
def SessionsRemoved (w : World) : Prop :=
  ∀ (c : ConnectionId) (conn : Connection), w.connections[c]? = some conn → conn.status ≠ .leaving

/-- Every task has returned, every lock is free, and every connection is open or cleaned up. -/
structure AtRest (w : World) : Prop where
  subscribes : SubscribesReturned w
  publishNamespaces : NamespacesReturned w
  connections : SessionsRemoved w
  dataStreams : StreamsReturned w
  stateGuard : w.stateGuard = none
  trackGuard : ∀ track, w.trackGuard track = none

/-- The number of tasks stays. -/
theorem SubscribeStep.subscribes_length {w w' : World} {k : RequestId} {t : SubscribeTask}
    {input : Input} (h : SubscribeStep w k t input w') :
    w'.subscribes.length = w.subscribes.length := by
  cases h <;> simp [World.goto, World.update, World.finish, World.write, World.setState,
    World.setStateGuard, World.setTrackGuard, World.dropTrackGuard, World.allocateRequestId]

def World.subscribeWork (w : World) (k : Nat) : Nat :=
  (w.task k).elim 0 (SubscribeTask.work w.subscribes.length)

theorem forces_subscribesReturned {n : Network} (h : network.Reachable n) :
    network.Forces NetworkLabel.owner
      (fun n => network.Reachable n ∧ SubscribesReturned n.world) n := by
  have hall := Machine.Forces.of_table network NetworkLabel.owner
    network.Reachable (fun n => n.world.subscribes.length) (fun n => n.world.subscribeWork)
    (fun n i hreachable hi hwork => ?_) h
  · refine hall.trans fun n hn => .done ⟨hn.1, fun k t ht => ?_⟩
    have hzero := hn.2 k (List.getElem?_eq_some_iff.mp ht).1
    rw [World.subscribeWork, ht] at hzero
    exact SubscribeTask.work_eq_zero.mp hzero
  · have horderly := orderly_of_reachable (reachable_world hreachable)
    obtain ⟨t, ht⟩ : ∃ t, n.world.task i = some t := ⟨_, List.getElem?_eq_getElem hi⟩
    have hpc : t.pc ≠ .returned := by
      intro hpc
      rw [World.subscribeWork, ht] at hwork
      exact hwork (SubscribeTask.work_eq_zero.mpr hpc)
    obtain ⟨j, u, input, w', hu, hinput, hw'⟩ := horderly.exists_turn ht hpc
    have hdeliver : n.deliver (.subscribe j input) = some n := by
      unfold Network.deliver
      split <;> simp_all
    refine ⟨.subscribe j, j, ⟨.relay (.subscribe j input), _, rfl,
      Network.step_of_deliver hdeliver hw'⟩, (List.getElem?_eq_some_iff.mp hu).1,
      fun l n' howner hstep => ?_⟩
    obtain ⟨input', rfl⟩ := NetworkLabel.eq_of_owner_subscribe howner
    cases Network.relayed hstep with
    | subscribe hu₀ hs =>
      obtain rfl := Option.mem_unique hu hu₀
      have hcount := hs.subscribes_length
      obtain ⟨u', hu', hadvances⟩ := hs.advances hu
        (length_findSubscriberRequests_le horderly.known.lifecycle.upstreams)
      refine ⟨hreachable.step hstep, hcount, ?_, fun a ha => ?_⟩
      · rw [World.subscribeWork, World.subscribeWork, hu, hu', hcount]
        exact hadvances.work
      · rw [World.subscribeWork, World.subscribeWork, hcount]
        cases hb : n.world.task a with
        | none => rw [hs.absent hb]
        | some b =>
          obtain ⟨b', hb', hagree⟩ := hs.other ha hb
          rw [hb']
          exact hagree.work _

/-- Nobody holds the mutex of the state then. -/
theorem SubscribesReturned.stateGuard {w : World} (h : SubscribesReturned w)
    (horderly : Orderly w) : w.stateGuard = none := by
  cases hguard : w.stateGuard with
  | none => rfl
  | some k =>
    obtain ⟨t, ht, hpc⟩ := (horderly.guarded k).mp hguard
    rw [h k t ht] at hpc
    cases hpc

theorem SubscribesReturned.trackGuard {w : World} (h : SubscribesReturned w)
    (horderly : Orderly w) (track : FullTrackName) : w.trackGuard track = none := by
  cases hguard : w.trackGuard track with
  | none => rfl
  | some k =>
    obtain ⟨t, ht, hlocked, -⟩ := horderly.givesBack track k hguard
    rw [h k t ht] at hlocked
    cases hlocked

def PublishNamespaceTask.work (t : PublishNamespaceTask) : Nat :=
  match t.pc with
  | .register => 2
  | .accept => 1
  | .returned => 0

def World.namespaceWork (w : World) (i : Nat) : Nat :=
  (w.publishNamespaces[i]?).elim 0 PublishNamespaceTask.work

theorem Step.namespaceWork {w w' : World} {i : Nat} {input : Input}
    (h : Step w (.publishNamespace i input) w') :
    w'.subscribes = w.subscribes ∧ w'.publishNamespaces.length = w.publishNamespaces.length ∧
      w'.namespaceWork i < w.namespaceWork i ∧
      ∀ j, j ≠ i → w'.namespaceWork j = w.namespaceWork j := by
  cases h with
  | register ht hpc hfree =>
    refine ⟨rfl, by simp [World.updateNamespace, World.setState], ?_, fun j hj => ?_⟩
    · simp [World.namespaceWork, World.updateNamespace, World.setState, ht,
        PublishNamespaceTask.work, hpc]
    · simp [World.namespaceWork, World.updateNamespace, World.setState, hj.symm]
  | accept ht hpc ok =>
    refine ⟨rfl, by simp [World.updateNamespace], ?_, fun j hj => ?_⟩
    · simp [World.namespaceWork, World.updateNamespace, ht, PublishNamespaceTask.work, hpc]
    · simp [World.namespaceWork, World.updateNamespace, hj.symm]

theorem forces_namespacesReturned {n : Network}
    (h : network.Reachable n ∧ SubscribesReturned n.world) :
    network.Forces NetworkLabel.owner (fun n =>
      (network.Reachable n ∧ SubscribesReturned n.world) ∧ NamespacesReturned n.world) n := by
  have hall := Machine.Forces.of_table network NetworkLabel.owner
    (fun n => network.Reachable n ∧ SubscribesReturned n.world)
    (fun n => n.world.publishNamespaces.length) (fun n => n.world.namespaceWork)
    (fun n i hn hi hwork => ?_) h
  · refine hall.trans fun n hn => .done ⟨hn.1, fun i t ht => ?_⟩
    have hzero := hn.2 i (List.getElem?_eq_some_iff.mp ht).1
    rw [World.namespaceWork, ht] at hzero
    cases hpc : t.pc with
    | returned => rfl
    | register => simp [PublishNamespaceTask.work, hpc] at hzero
    | accept => simp [PublishNamespaceTask.work, hpc] at hzero
  · obtain ⟨hreachable, hreturned⟩ := hn
    obtain ⟨t, ht⟩ : ∃ t, n.world.publishNamespaces[i]? = some t :=
      ⟨_, List.getElem?_eq_getElem hi⟩
    have hfree := hreturned.stateGuard (orderly_of_reachable (reachable_world hreachable))
    have henabled : ∃ input w', n.world.publishNamespace i input = some w' := by
      cases hpc : t.pc with
      | register => exact ⟨.proceed, _, by simp [World.publishNamespace, ht, hpc, hfree]; rfl⟩
      | accept => exact ⟨.wrote true, _, by simp [World.publishNamespace, ht, hpc]; rfl⟩
      | returned => simp [World.namespaceWork, ht, PublishNamespaceTask.work, hpc] at hwork
    obtain ⟨input, w', hw'⟩ := henabled
    refine ⟨.publishNamespace i, i, ⟨.relay (.publishNamespace i input), _, rfl,
      Network.step_of_deliver rfl hw'⟩, hi, fun l n' howner hstep => ?_⟩
    obtain ⟨input', rfl⟩ := NetworkLabel.eq_of_owner_publishNamespace howner
    obtain ⟨hsubscribes, hleft⟩ := (Network.relayed hstep).namespaceWork
    refine ⟨⟨hreachable.step hstep, fun k t ht => hreturned k t ?_⟩, hleft⟩
    rwa [World.task, hsubscribes] at ht

def World.sessionWork (w : World) (c : Nat) : Nat :=
  (w.connections[c]?).elim 0 fun conn => if conn.status = .leaving then 1 else 0

/-- A connection that has left its loop only removes its session. -/
theorem Step.sessionWork {w w' : World} {l : Label} (h : Step w l w') {c : ConnectionId}
    {conn : Connection} (hconn : w.connections[c]? = some conn) (hstatus : conn.status = .leaving)
    (hl : (∃ event, l = .event c event) ∨ l = .eventError c ∨ l = .removeSession c) :
    w'.subscribes = w.subscribes ∧ w'.publishNamespaces = w.publishNamespaces ∧
      w'.connections.length = w.connections.length ∧ w'.sessionWork c < w.sessionWork c ∧
      ∀ a, a ≠ c → w'.sessionWork a = w.sessionWork a := by
  have absurdStatus {conn' : Connection} (hconn' : w.connections[c]? = some conn')
      (hlooping : conn'.status = .looping) : False := by
    obtain rfl := Option.mem_unique hconn hconn'
    rw [hstatus] at hlooping
    cases hlooping
  rcases hl with ⟨event, rfl⟩ | rfl | rfl
  · cases h with
    | event hconn' hlooping => exact (absurdStatus hconn' hlooping).elim
  · cases h with
    | eventError hconn' hlooping => exact (absurdStatus hconn' hlooping).elim
  · cases h with
    | removeSession hconn' hstatus' hfree =>
      refine ⟨rfl, rfl, by simp [World.setStatus, World.setState], ?_, fun a ha => ?_⟩
      · simp [World.sessionWork, World.setStatus, World.setState, hconn, hstatus]
      · simp [World.sessionWork, World.setStatus, World.setState, ha.symm]

/-- The handlers of requests have returned. -/
structure RequestsReturned (n : Network) : Prop where
  reachable : network.Reachable n
  subscribes : SubscribesReturned n.world
  publishNamespaces : NamespacesReturned n.world

theorem forces_sessionsRemoved {n : Network} (h : RequestsReturned n) :
    network.Forces NetworkLabel.owner (fun n => RequestsReturned n ∧ SessionsRemoved n.world)
      n := by
  have hall := Machine.Forces.of_table network NetworkLabel.owner
    RequestsReturned (fun n => n.world.connections.length) (fun n => n.world.sessionWork)
    (fun n c hn hc hwork => ?_) h
  · refine hall.trans fun n hn => .done ⟨hn.1, fun c conn hconn hstatus => ?_⟩
    have hzero := hn.2 c (List.getElem?_eq_some_iff.mp hconn).1
    simp [World.sessionWork, hconn, hstatus] at hzero
  · obtain ⟨hreachable, hsubscribes, hnamespaces⟩ := hn
    obtain ⟨conn, hconn⟩ : ∃ conn, n.world.connections[c]? = some conn :=
      ⟨_, List.getElem?_eq_getElem hc⟩
    have hfree := hsubscribes.stateGuard (orderly_of_reachable (reachable_world hreachable))
    have hstatus : conn.status = .leaving := by
      by_contra hne
      simp [World.sessionWork, hconn, hne] at hwork
    have henabled : ∃ w', n.world.removeSession c = some w' :=
      ⟨_, by simp [World.removeSession, hconn, hstatus, hfree]; rfl⟩
    obtain ⟨w', hw'⟩ := henabled
    refine ⟨.connection c, c, ⟨.relay (.removeSession c), _, rfl,
      Network.step_of_deliver rfl hw'⟩, hc, fun l n' howner hstep => ?_⟩
    have hleaves : ∃ l', l = .relay l' ∧
        ((∃ event, l' = .event c event) ∨ l' = .eventError c ∨ l' = .removeSession c) := by
      rcases NetworkLabel.eq_of_owner_connection howner with ⟨event, rfl⟩ | rfl | rfl
      · exact ⟨_, rfl, .inl ⟨event, rfl⟩⟩
      · exact ⟨_, rfl, .inr (.inl rfl)⟩
      · exact ⟨_, rfl, .inr (.inr rfl)⟩
    obtain ⟨l', rfl, hl'⟩ := hleaves
    obtain ⟨hsame, hsame', hleft⟩ := (Network.relayed hstep).sessionWork hconn hstatus hl'
    refine ⟨⟨hreachable.step hstep, fun k t ht => hsubscribes k t ?_, fun i t ht => ?_⟩, hleft⟩
    · rwa [World.task, hsame] at ht
    · rw [hsame'] at ht
      exact hnamespaces i t ht

def Network.streamWork (n : Network) (i : Nat) : Nat :=
  match n.world.dataStreams[i]?, n.readers[i]? with
  | some t, some reader => reader.work n.world t
  | _, _ => 0

theorem DataReader.work_eq_zero {reader : DataReader} {w : World} {t : DataStreamTask}
    (h : reader.work w t = 0) : t.pc = .returned := by
  unfold DataReader.work at h
  cases hpc : t.pc with
  | returned => rfl
  | _ => simp [hpc] at h

/-- A step of a task leaves less to it, and as much to the others. -/
theorem Forwarding.streamWork {n n' : Network} {i : Nat} {input : Input} (h : Forwarding n)
    (hstep : NetworkStep n (.relay (.dataStream i input)) n') :
    n'.world.dataStreams.length = n.world.dataStreams.length ∧
      n'.streamWork i < n.streamWork i ∧ ∀ j, j ≠ i → n'.streamWork j = n.streamWork j := by
  obtain ⟨t, reader, reader', ht, hreader, hdata, hmoves, hreaders⟩ := hstep.moved
  obtain ⟨t', ht', -⟩ := hdata.move ht
  have hreader' : n'.readers[i]? = some reader' := by
    rw [hreaders]
    exact Table.getElem?_modify.mpr ⟨reader, hreader, by rw [if_pos rfl]⟩
  refine ⟨hdata.length, ?_, fun j hj => ?_⟩
  · simp only [Network.streamWork, ht, hreader, ht', hreader']
    exact (hdata.advance ht ht' hmoves).work_lt (h.relaying i t reader ht hreader).phase _
  · have hsame : n'.readers[j]? = n.readers[j]? := by
      rw [hreaders, List.getElem?_modify_ne _ _ (Ne.symm hj)]
    have htask : n'.world.dataStreams[j]? = n.world.dataStreams[j]? := by
      cases hu : n.world.dataStreams[j]? with
      | some u => exact hdata.other hj hu
      | none =>
        rw [List.getElem?_eq_none_iff] at hu ⊢
        rwa [hdata.length]
    simp only [Network.streamWork, htask, hsame]
    split
    · rw [hdata.frame]
      rfl
    · rfl

theorem forces_streamsReturned {n : Network} (h : RequestsReturned n ∧ SessionsRemoved n.world) :
    network.Forces NetworkLabel.owner (fun n =>
      (RequestsReturned n ∧ SessionsRemoved n.world) ∧ StreamsReturned n.world) n := by
  have hall := Machine.Forces.of_table network NetworkLabel.owner
    (fun n => RequestsReturned n ∧ SessionsRemoved n.world)
    (fun n => n.world.dataStreams.length) Network.streamWork (fun n i hn hi hwork => ?_) h
  · refine hall.trans fun n hn => .done ⟨hn.1, fun i t ht => ?_⟩
    have hi := (List.getElem?_eq_some_iff.mp ht).1
    have hlength := (forwarding_of_reachable hn.1.1.reachable).length
    have hreader := List.getElem?_eq_getElem (Nat.lt_of_lt_of_eq hi hlength.symm)
    have hzero := hn.2 i hi
    simp only [Network.streamWork, ht, hreader] at hzero
    exact DataReader.work_eq_zero hzero
  · obtain ⟨⟨hreachable, hsubscribes, hnamespaces⟩, hremoved⟩ := hn
    have hforwarding := forwarding_of_reachable hreachable
    have hfree := hsubscribes.stateGuard (orderly_of_reachable (reachable_world hreachable))
    have ht := List.getElem?_eq_getElem hi
    have hreader := List.getElem?_eq_getElem (Nat.lt_of_lt_of_eq hi hforwarding.length.symm)
    have hpc : n.world.dataStreams[i].pc ≠ .returned := by
      intro hpc
      simp only [Network.streamWork, ht, hreader, DataReader.work, hpc] at hwork
      exact hwork rfl
    obtain ⟨n₁, hn₁⟩ := Network.exists_turn ht hreader hpc (fun _ => hfree) true
    refine ⟨.dataStream i, i, ⟨n.turn i true, n₁, rfl, hn₁⟩, hi, fun l n' howner hstep => ?_⟩
    obtain ⟨input, rfl⟩ := NetworkLabel.eq_of_owner_dataStream howner
    have hframe : n'.world = { n.world with
        dataStreams := n'.world.dataStreams, streams := n'.world.streams } := by
      obtain ⟨_, _, _, -, -, hdata, -⟩ := (NetworkStep.of_step hstep).moved
      exact hdata.frame
    refine ⟨⟨⟨hreachable.step hstep, ?_, ?_⟩, ?_⟩, hforwarding.streamWork (.of_step hstep)⟩
    · rw [hframe]
      exact hsubscribes
    · rw [hframe]
      exact hnamespaces
    · rw [hframe]
      exact hremoved

end Moqt.Relay
