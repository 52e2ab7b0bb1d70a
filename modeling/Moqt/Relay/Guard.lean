import Moqt.Library.Scope
import Moqt.Relay.Lifecycle

/-! Who holds the mutex of the relay's state while waiting for a peer.  The guards of each handler
are read off its scopes; the guard that `World` keeps agrees with them. -/

namespace Moqt.Relay

open Library Wire

/-! ### The scopes of the handlers -/

/-- The mutexes of the relay: of its state, of a track, of a `SubscribeRequest` and of a
`DataStreamWriter`. -/
inductive Mutex where
  | state
  | track
  | request
  | writer
deriving DecidableEq, Repr

/-- The points at which `handle_data_stream` waits for a peer. -/
inductive DataStreamPoint where
  | drain
  | openStream
  | readObject
  | writeObject
deriving DecidableEq, Repr

def DataStreamPc.point : DataStreamPc → Option DataStreamPoint
  | .drain => some .drain
  | .openStreams _ => some .openStream
  | .readObject => some .readObject
  | .writeObject .. => some .writeObject
  | .lookup | .finish _ | .dropWriters _ | .returned => none

namespace Scopes

open Scoped

/-- `handle_connection` from `register_session` on. -/
def handleConnection : Scoped Mutex ConnectionStatus :=
  .temporary .state .done <|
  .block (.wait .looping .done) <|
  .temporary .state .done .done

/-- The task of a PUBLISH_NAMESPACE. -/
def publishNamespace : Scoped Mutex PublishNamespacePc :=
  .temporary .state .done <|
  .wait .accept .done

def handleSubscribe : Scoped Mutex SubscribePc :=
  .block (.branch (.temporary .request (.wait .rejectFilter .done) .done) .done) <|
  -- `track_locks.entry(..)`
  .temporary .state .done <|
  .bind .track <|
  .block (.bind .state <| .branch
    (.drop .state <| .temporary .request (.wait .forwardExisting .done) .done) .done) <|
  -- the `match` on `state.lock().await.find_publisher(..)`
  .temporary .state
    (.branch .done (.temporary .request (.wait .rejectNoPublisher .done) .done)) <|
  .wait .openUpstream <| .wait .writeUpstream <| .wait .awaitUpstream <|
  .temporary .state .done <|
  .drop .track <|
  .temporary .request (.wait .forwardOk .done) <|
  .wait .awaitDone <|
  .temporary .state .done <|
  .block (.temporary .request (.wait .notify .done) .done) .done

def handleDataStream : Scoped Mutex DataStreamPoint :=
  .temporary .state .done <|
  .block (.branch (.wait .drain .done) .done) <|
  .block (.wait .openStream .done) <|
  .block (.wait .readObject <|
    .block (.bind .writer <| .wait .writeObject <| .branch (.drop .writer .done) .done) .done) <|
  .block (.bind .writer .done) .done

end Scopes

/-- A task of the relay. -/
inductive TaskId where
  | connection (c : ConnectionId)
  | publishNamespace (i : Nat)
  | subscribe (k : RequestId)
  | dataStream (i : Nat)
deriving DecidableEq, Repr

/-- The task waits for a peer, at a point where its handler has a guard of `m`. -/
def World.WaitsWith (w : World) (m : Mutex) : TaskId → Prop
  | .connection c => ∃ conn ∈ w.connections[c]?, Scopes.handleConnection.WaitsWith m conn.status
  | .publishNamespace i =>
    ∃ t ∈ w.publishNamespaces[i]?, Scopes.publishNamespace.WaitsWith m t.pc
  | .subscribe k => ∃ t ∈ w.task k, Scopes.handleSubscribe.WaitsWith m t.pc
  | .dataStream i => ∃ t ∈ w.dataStreams[i]?, ∃ p ∈ t.pc.point,
      Scopes.handleDataStream.WaitsWith m p

/-- No task that waits for a peer holds the mutex of the state. -/
def NeverAcrossNetwork (w : World) : Prop := ∀ task, ¬w.WaitsWith .state task

/-- The task `k` rejects its SUBSCRIBE for want of a publisher. -/
def World.AtReject (w : World) (k : RequestId) : Prop :=
  ∃ t, w.task k = some t ∧ t.pc = .rejectNoPublisher

/-- The only wait under the guard is that in the arm of the `match` which rejects. -/
theorem World.waitsWith_state_iff {w : World} {task : TaskId} :
    w.WaitsWith .state task ↔ ∃ k, task = .subscribe k ∧ w.AtReject k := by
  have hconnection : ∀ status, ¬Scopes.handleConnection.WaitsWith .state status := by
    intro status
    cases status <;> decide
  have hnamespace : ∀ pc, ¬Scopes.publishNamespace.WaitsWith .state pc := by
    intro pc
    cases pc <;> decide
  have hdata : ∀ p, ¬Scopes.handleDataStream.WaitsWith .state p := by
    intro p
    cases p <;> decide
  have hsubscribe : ∀ pc, Scopes.handleSubscribe.WaitsWith .state pc ↔ pc = .rejectNoPublisher := by
    intro pc
    cases pc <;> decide
  cases task with
  | connection c => simp [World.WaitsWith, hconnection]
  | publishNamespace i => simp [World.WaitsWith, hnamespace]
  | subscribe k => simp [World.WaitsWith, World.AtReject, hsubscribe]
  | dataStream i => simp [World.WaitsWith, hdata]

/-! ### The guard that the world keeps -/

/-- What a step of the task `k` does with the mutex of the state. -/
inductive GuardMove (w : World) (k : RequestId) (t : SubscribeTask) (input : Input) (w' : World) :
    Prop
  | kept (hguard : w'.stateGuard = w.stateGuard) (hpc : t.pc ≠ .rejectNoPublisher)
      (hpc' : ¬w'.AtReject k)
  | taken (hinput : input = .proceed) (hpc : t.pc = .findPublisher)
      (hnone : w.state.findPublisher t.message.trackNamespace = none)
      (hfree : w.stateGuard = none) (hguard : w'.stateGuard = some k) (hpc' : w'.AtReject k)
  | left (hguard : w'.stateGuard = if w.stateGuard = some k then none else w.stateGuard)
      (hpc' : ¬w'.AtReject k)

theorem SubscribeStep.guardMove {w w' : World} {k : RequestId} {t : SubscribeTask} {input : Input}
    (h : SubscribeStep w k t input w') (ht : w.task k = some t) : GuardMove w k t input w' := by
  cases h with
  | noPublisher hpc hfree hnone =>
    exact .taken rfl hpc hnone hfree rfl ⟨_, World.task_update_self _ ht, rfl⟩
  | silent | reject | forwardLast | notDone | notified =>
    refine .left rfl ?_
    rintro ⟨t', ht', hpc'⟩
    simp [ht] at ht'
    simp [← ht'] at hpc'
  | @notify hpc done hdone r rs htodo ok =>
    refine .kept rfl (by simp [hpc]) ?_
    rintro ⟨t', ht', hpc'⟩
    by_cases hkr : k = r
    · subst hkr
      simp [ht] at ht'
      simp [← ht', hpc] at hpc'
    · simp [ht, hkr] at ht'
      simp [← ht', hpc] at hpc'
  | _ hpc =>
    refine .kept rfl (by simp [hpc]) ?_
    rintro ⟨t', ht', hpc'⟩
    simp [ht] at ht'
    simp [← ht'] at hpc'

/-- Whether a task rejects is changed by its own steps only. -/
theorem Step.atReject_iff {w w' : World} {l : Label} (h : Step w l w') {j : RequestId}
    (hl : ∀ input, l ≠ .subscribe j input) : w'.AtReject j ↔ w.AtReject j := by
  have hmove := h.task j
  unfold World.AtReject
  generalize w.task j = o, w'.task j = o' at hmove
  cases hmove with
  | absent => simp
  | spawned session message => simp
  | kept hagree => simp [hagree.pc]
  | moved heq => exact absurd heq (hl _)

/-- A task that rejects after a step did so before, or has just found no publisher. -/
theorem Step.atReject {w w' : World} {l : Label} (h : Step w l w') {j : RequestId}
    (hj : w'.AtReject j) : w.AtReject j ∨ l = .subscribe j .proceed ∧
      ∃ t, w.task j = some t ∧ t.pc = .findPublisher ∧
        w.state.findPublisher t.message.trackNamespace = none := by
  by_cases hl : ∃ input, l = .subscribe j input
  · obtain ⟨input, rfl⟩ := hl
    cases h with
    | subscribe ht hs =>
      cases hs.guardMove ht with
      | kept _ _ hnot => exact absurd hj hnot
      | left _ hnot => exact absurd hj hnot
      | taken hinput hpc hnone _ _ _ => exact .inr ⟨by rw [hinput], _, ht, hpc, hnone⟩
  · exact .inl ((h.atReject_iff fun input heq => hl ⟨input, heq⟩).mp hj)

/-- The guard is that of the task which rejects, if there is one. -/
def Guarded (w : World) : Prop := ∀ k, w.stateGuard = some k ↔ w.AtReject k

theorem Guarded.new : Guarded .new := by
  intro k
  constructor
  · nofun
  · rintro ⟨t, ht, -⟩
    exact absurd ht (World.not_task_new k)

theorem Guarded.step {w w' : World} {l : Label} (h : Guarded w) (hstep : Step w l w') :
    Guarded w' := by
  have same (hl : ∀ k input, l ≠ .subscribe k input) (hguard : w'.stateGuard = w.stateGuard) :
      Guarded w' := by
    intro j
    rw [hguard, hstep.atReject_iff (hl j)]
    exact h j
  cases hstep with
  | event hconn hstatus event => cases event <;> exact same nofun rfl
  | dataStream ht hs =>
    apply same nofun
    rw [hs.frame]
  | @subscribe k t input w' ht hs =>
    intro j
    have other (hjk : j ≠ k) : w'.AtReject j ↔ w.AtReject j :=
      (Step.subscribe ht hs).atReject_iff fun input heq => hjk (Label.subscribe.inj heq).1.symm
    by_cases hjk : j = k
    · subst hjk
      cases hs.guardMove ht with
      | kept hguard hpc hnot =>
        have hnot' : ¬w.AtReject j := by
          rintro ⟨t₁, ht₁, hpc₁⟩
          obtain rfl := Option.mem_unique ht ht₁
          exact hpc hpc₁
        rw [hguard, h j]
        exact iff_of_false hnot' hnot
      | taken _ _ _ _ hguard hk => exact iff_of_true hguard hk
      | left hguard hnot =>
        refine iff_of_false ?_ hnot
        rw [hguard]
        split
        · nofun
        · assumption
    · rw [other hjk, ← h j]
      cases hs.guardMove ht with
      | kept hguard _ _ => rw [hguard]
      | taken _ _ _ hfree hguard _ =>
        rw [hguard, hfree]
        exact iff_of_false (fun heq => hjk (Option.some.inj heq).symm) nofun
      | left hguard _ =>
        rw [hguard]
        split
        next heq =>
          rw [heq]
          exact iff_of_false nofun fun heq' => hjk (Option.some.inj heq').symm
        · rfl
  | _ => exact same nofun rfl

/-- In every reachable state, the guard of the state is held by the task whose scopes say so. -/
theorem stateGuard_iff_waitsWith {w : World} (h : relay.Reachable w) (k : RequestId) :
    w.stateGuard = some k ↔ w.WaitsWith .state (.subscribe k) := by
  have hguarded : Guarded w :=
    h.invariant .new fun _ _ _ hI hstep => hI.step (.of_step hstep)
  rw [hguarded k, World.waitsWith_state_iff]
  constructor
  · exact fun hk => ⟨k, rfl, hk⟩
  · rintro ⟨_, heq, hk⟩
    rwa [TaskId.subscribe.inj heq]

/-! ### Runs -/

/-- Every SUBSCRIBE that looks for a publisher finds one. -/
def FindsPublisher (w : World) : Label → Prop
  | .subscribe k .proceed => ∀ t ∈ w.task k, t.pc = .findPublisher →
      (w.state.findPublisher t.message.trackNamespace).isSome
  | _ => True

theorem not_atReject_of_findsPublisher {ls : List Label}
    (h : relay.Meets FindsPublisher .new ls) (k : RequestId) :
    ¬(relay.run .new ls).AtReject k := by
  refine relay.invariant (I := fun w => ¬w.AtReject k) ?_ ?_ h
  · rintro ⟨t, ht, -⟩
    exact absurd ht (World.not_task_new k)
  · intro w l w' hnot hl hstep hk
    rcases (Step.of_step hstep).atReject hk with hk | ⟨rfl, t, ht, hpc, hnone⟩
    · exact hnot hk
    · have hsome := hl t ht hpc
      rw [hnone] at hsome
      cases hsome

/-- A step that finds no publisher brings its task to the rejection. -/
theorem exists_atReject_of_not_findsPublisher {w : World} {l : Label}
    (hsome : (relay.step w l).isSome) (h : ¬FindsPublisher w l) :
    ∃ k, (relay.next w l).AtReject k := by
  obtain ⟨w', hstep⟩ := Option.isSome_iff_exists.mp hsome
  rw [Machine.next_of_step hstep]
  unfold FindsPublisher at h
  split at h
  next k =>
    simp only [not_forall] at h
    obtain ⟨t, ht, hpc, hnone⟩ := h
    refine ⟨k, ?_⟩
    cases Step.of_step hstep with
    | subscribe ht₀ hs =>
      obtain rfl := Option.mem_unique ht ht₀
      cases hs with
      | noPublisher => exact ⟨_, World.task_update_self _ ht, rfl⟩
      | found _ _ hfound => simp [hfound] at hnone
      | silent _ hexit => simp [SilentExit, hpc] at hexit
      | _ => simp_all
  · exact absurd trivial h

/-- In every state of a run no task waits for a peer under the mutex of the state, if and only if
every SUBSCRIBE in it that looks for a publisher finds one. -/
theorem neverAcrossNetwork_iff (ls : List Label) :
    (∀ ls', ls' <+: ls → NeverAcrossNetwork (relay.run .new ls')) ↔
      relay.Meets FindsPublisher .new ls := by
  constructor
  · intro h
    by_contra hmeets
    obtain ⟨ls₁, l, ls₂, rfl, hsome, hnot⟩ := Machine.exists_of_not_meets hmeets
    obtain ⟨k, hk⟩ := exists_atReject_of_not_findsPublisher hsome hnot
    refine h (ls₁ ++ [l]) ⟨ls₂, by simp⟩ (.subscribe k) (World.waitsWith_state_iff.mpr ⟨k, rfl, ?_⟩)
    rwa [Machine.run_append, Machine.run_cons, Machine.run_nil]
  · rintro h ls' ⟨ls₂, rfl⟩ task hwaits
    obtain ⟨k, -, hk⟩ := World.waitsWith_state_iff.mp hwaits
    exact not_atReject_of_findsPublisher (Machine.meets_append.mp h).1 k hk

/-- A SUBSCRIBE for a namespace that nobody publishes is rejected under the mutex. -/
theorem not_neverAcrossNetwork_noPublisher : ¬∀ ls, NeverAcrossNetwork (relay.run .new ls) := by
  intro h
  refine h (Label.connect :: Schedule.ask 0 0 ⟨[[1]]⟩ [0x61] ++ [Label.subscribe 0 .proceed])
    (.subscribe 0) (World.waitsWith_state_iff.mpr ⟨0, rfl, ?_⟩)
  have hpc : (((relay.run .new (Label.connect :: Schedule.ask 0 0 ⟨[[1]]⟩ [0x61] ++
      [Label.subscribe 0 .proceed])).task 0).map fun t => t.pc) = some .rejectNoPublisher := by
    decide
  exact Option.map_eq_some_iff.mp hpc

end Moqt.Relay
