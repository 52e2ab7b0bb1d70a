import Moqt.Relay.Entry
import Moqt.Relay.Guard

/-! Handlers of SUBSCRIBE that can go on.  A handler has what its next step needs, a lock is held at
the stages that have it and at no other, and where no lock is in its way a handler takes its next
step. -/

namespace Moqt.Relay

open Library Wire

/-! ### What a task has at each stage -/

namespace SubscribePc

/-- The task has named its track, and has not returned. -/
def named : SubscribePc → Bool
  | .start | .rejectFilter | .returned => false
  | _ => true

/-- The task has found a publisher, and has not yet recorded a subscription. -/
def routed : SubscribePc → Bool
  | .openUpstream | .writeUpstream | .awaitUpstream | .record => true
  | _ => false

end SubscribePc

/-- The task has what its next step takes out of an `Option`. -/
structure SubscribeTask.Equipped (t : SubscribeTask) : Prop where
  track : t.pc.named = true → t.track.isSome = true
  publisher : t.pc.routed = true → t.publisher.isSome = true
  request : t.pc = .writeUpstream → t.upstreamRequest.isSome = true
  answer : t.pc = .forwardExisting → t.subscribeOk.isSome = true

/-- How many steps the task has to take at most, where there are `n` tasks. -/
def SubscribeTask.work (n : Nat) (t : SubscribeTask) : Nat :=
  match t.pc with
  | .start => n + 15
  | .trackLock => n + 14
  | .lockTrack => n + 13
  | .aggregate => n + 12
  | .findPublisher => n + 11
  | .openUpstream => n + 10
  | .writeUpstream => n + 9
  | .awaitUpstream => n + 8
  | .record => n + 7
  | .forwardOk => n + 6
  | .awaitDone => n + 5
  | .fetchSubscribers => n + 4
  | .notify => t.subsToNotify.length + 1
  | .rejectFilter | .forwardExisting | .rejectNoPublisher => 1
  | .returned => 0

theorem SubscribeTask.work_eq_zero {n : Nat} {t : SubscribeTask} :
    t.work n = 0 ↔ t.pc = .returned := by
  unfold work
  cases h : t.pc <;> simp

theorem SubscribeTask.Equipped.agree {t t' : SubscribeTask} (h : t.Equipped) (hagree : Agree t t') :
    t'.Equipped := by
  obtain ⟨-, -, hpc, htrack, hpublisher, hrequest, hok, -, -⟩ := hagree
  constructor
  · rw [hpc, htrack]
    exact h.track
  · rw [hpc, hpublisher]
    exact h.publisher
  · rw [hpc, hrequest]
    exact h.request
  · rw [hpc, hok]
    exact h.answer

theorem Agree.work {t t' : SubscribeTask} (h : Agree t t') (n : Nat) : t'.work n = t.work n := by
  unfold SubscribeTask.work
  rw [h.pc, h.subsToNotify]

/-- A step of the task brings it on, with what the next one needs. -/
structure SubscribeTask.Advances (n : Nat) (t t' : SubscribeTask) : Prop where
  equipped : t.Equipped → t'.Equipped
  work : t'.work n < t.work n

theorem SubscribeTask.Advances.agree {n : Nat} {t u t' : SubscribeTask} (h : t.Advances n u)
    (hagree : Agree u t') : t.Advances n t' :=
  ⟨fun heq => (h.equipped heq).agree hagree, by rw [hagree.work]; exact h.work⟩

theorem SubscribeTask.advances_return {n : Nat} {t u : SubscribeTask} (hpc : t.pc ≠ .returned)
    (hu : u.pc = .returned) : t.Advances n u := by
  refine ⟨fun _ => ?_, ?_⟩
  · constructor <;> simp [hu, SubscribePc.named, SubscribePc.routed]
  · rw [work_eq_zero.mpr hu]
    exact Nat.pos_of_ne_zero fun h => hpc (work_eq_zero.mp h)

theorem SubscribeStep.advances {w w' : World} {k : RequestId} {t : SubscribeTask} {input : Input}
    (h : SubscribeStep w k t input w') (ht : w.task k = some t) {n : Nat}
    (hn : ∀ track, (w.state.findSubscriberRequests track).length ≤ n) :
    ∃ t', w'.task k = some t' ∧ t.Advances n t' := by
  have stay (f : SubscribeTask → SubscribeTask) := World.task_update_self f ht
  cases h with
  | unsupported hpc hfilter =>
    refine ⟨_, stay _, fun _ => ?_, by simp [SubscribeTask.work, hpc]⟩
    constructor <;> simp [SubscribePc.named, SubscribePc.routed]
  | named hpc hfilter htrack =>
    refine ⟨_, stay _, fun _ => ?_, by simp [SubscribeTask.work, hpc]⟩
    constructor <;> simp [SubscribePc.routed]
  | silent hpc h => exact ⟨_, stay _, SubscribeTask.advances_return hpc.1 rfl⟩
  | reject hpc error ok =>
    refine ⟨_, by simp [ht]; rfl, SubscribeTask.advances_return ?_ rfl⟩
    rcases hpc with hpc | hpc <;> simp [hpc]
  | trackLock hpc htrack hfree =>
    refine ⟨_, stay _, fun h => ?_, by simp [SubscribeTask.work, hpc]⟩
    constructor <;> simp [SubscribePc.routed, htrack]
  | lockTrack hpc htrack hfree =>
    refine ⟨_, stay _, fun h => ?_, by simp [SubscribeTask.work, hpc]⟩
    constructor <;> simp [SubscribePc.routed, htrack]
  | join hpc htrack hfree hexisting =>
    refine ⟨_, stay _, fun h => ?_, by simp [SubscribeTask.work, hpc]⟩
    constructor <;> simp [SubscribePc.routed, htrack]
  | vacant hpc htrack hfree hvacant =>
    refine ⟨_, stay _, fun h => ?_, by simp [SubscribeTask.work, hpc]⟩
    constructor <;> simp [SubscribePc.routed, htrack]
  | found hpc hfree hfound =>
    refine ⟨_, stay _, fun h => ?_, by simp [SubscribeTask.work, hpc]⟩
    have htrack := h.track (by simp [hpc, SubscribePc.named])
    constructor <;> simp [htrack]
  | noPublisher hpc hfree hnone =>
    refine ⟨_, stay _, fun h => ?_, by simp [SubscribeTask.work, hpc]⟩
    have htrack := h.track (by simp [hpc, SubscribePc.named])
    constructor <;> simp [SubscribePc.routed, htrack]
  | opened hpc htrack hpublisher hconn =>
    refine ⟨_, stay _, fun h => ?_, by simp [SubscribeTask.work, hpc]⟩
    constructor <;> simp [htrack, hpublisher]
  | sent hpc hrequest hencode =>
    refine ⟨_, stay _, fun h => ?_, by simp [SubscribeTask.work, hpc]⟩
    have htrack := h.track (by simp [hpc, SubscribePc.named])
    have hpublisher := h.publisher (by simp [hpc, SubscribePc.routed])
    constructor <;> simp [htrack, hpublisher]
  | answered hpc ok =>
    refine ⟨_, stay _, fun h => ?_, by simp [SubscribeTask.work, hpc]⟩
    have htrack := h.track (by simp [hpc, SubscribePc.named])
    have hpublisher := h.publisher (by simp [hpc, SubscribePc.routed])
    constructor <;> simp [htrack, hpublisher]
  | record hpc htrack hpublisher hanswer hfree =>
    refine ⟨_, stay _, fun h => ?_, by simp [SubscribeTask.work, hpc]⟩
    constructor <;> simp [SubscribePc.routed, htrack]
  | forwardLast ok hpc hanswer hencode =>
    refine ⟨_, by simp [ht]; rfl, SubscribeTask.advances_return ?_ rfl⟩
    rcases hpc with hpc | ⟨hpc, -⟩ <;> simp [hpc]
  | forwarded hpc hanswer hencode =>
    refine ⟨_, by simp [ht]; rfl, fun h => ?_, by simp [SubscribeTask.work, hpc]⟩
    have htrack := h.track (by simp [hpc, SubscribePc.named])
    constructor <;> simp [SubscribePc.routed, htrack]
  | done hpc done =>
    refine ⟨_, stay _, fun h => ?_, by simp [SubscribeTask.work, hpc]⟩
    have htrack := h.track (by simp [hpc, SubscribePc.named])
    constructor <;> simp [SubscribePc.routed, htrack]
  | notDone hpc hmessage => exact ⟨_, stay _, SubscribeTask.advances_return (by simp [hpc]) rfl⟩
  | @fetch hpc track htrack hfree =>
    have hle := hn track
    refine ⟨_, stay _, fun h => ?_, by simp only [SubscribeTask.work, hpc]; omega⟩
    constructor <;> simp [SubscribePc.routed, htrack]
  | @notify hpc done hdone r rs htodo ok =>
    have hadvances : t.Advances n { t with subsToNotify := rs } := by
      refine ⟨fun h => ⟨h.track, h.publisher, h.request, h.answer⟩, ?_⟩
      simp [SubscribeTask.work, hpc, htodo]
    by_cases hkr : k = r
    · subst hkr
      refine ⟨_, by simp [ht]; rfl, hadvances.agree ?_⟩
      constructor <;> simp [htodo]
    · refine ⟨_, by simp [ht, hkr]; rfl, hadvances.agree ?_⟩
      constructor <;> simp [htodo]
  | notified hpc htodo => exact ⟨_, stay _, SubscribeTask.advances_return (by simp [hpc]) rfl⟩

/-- Every task is equipped. -/
def AllEquipped (w : World) : Prop :=
  ∀ (j : RequestId) (t : SubscribeTask), w.task j = some t → t.Equipped

/-- A track has no more subscribers than there are tasks. -/
theorem length_findSubscriberRequests_le {w : World} (h : Upstreams w) (track : FullTrackName) :
    (w.state.findSubscriberRequests track).length ≤ w.subscribes.length := by
  unfold RelayState.findSubscriberRequests
  cases hsub : w.state.subscriptions.lookup track with
  | none => exact Nat.zero_le _
  | some sub =>
    have hsubset : sub.subscribers.map (·.request) ⊆ List.range w.subscribes.length := by
      intro r hr
      obtain ⟨e, he, rfl⟩ := List.mem_map.mp hr
      obtain ⟨t, ht, -⟩ := h.listed track sub hsub e he
      exact List.mem_range.mpr (List.getElem?_eq_some_iff.mp ht).1
    have hle := (List.subperm_of_subset (h.nodup track sub hsub) hsubset).length_le
    rwa [List.length_range] at hle

theorem AllEquipped.step {w w' : World} {l : Label} (h : AllEquipped w) (hlife : Lifecycle w)
    (hstep : Step w l w') : AllEquipped w' := by
  intro j t' ht'
  cases hstep with
  | event hconn hstatus event =>
    cases event with
    | subscribe message =>
      rcases World.task_spawn.mp ht' with hold | ⟨-, rfl⟩
      · exact h j t' hold
      · exact ⟨nofun, nofun, nofun, nofun⟩
    | _ => exact h j t' ht'
  | dataStream ht hs =>
    rw [hs.frame] at ht'
    exact h j t' ht'
  | @subscribe k t input w' ht hs =>
    by_cases hjk : j = k
    · subst hjk
      obtain ⟨u, hu, hadvances⟩ :=
        hs.advances ht (length_findSubscriberRequests_le hlife.upstreams)
      obtain rfl := Option.mem_unique hu ht'
      exact hadvances.equipped (h j t ht)
    · cases hj : w.task j with
      | none =>
        rw [hs.absent hj] at ht'
        cases ht'
      | some t₀ =>
        obtain ⟨u, hu, hagree⟩ := hs.other hjk hj
        obtain rfl := Option.mem_unique hu ht'
        exact (h j t₀ hj).agree hagree
  | _ => exact h j t' ht'

/-! ### Locks are given back -/

/-- The lock of a track is held by a task that is at a stage where it has it. -/
def GivesBack (w : World) : Prop := ∀ (track : FullTrackName) (j : RequestId),
  w.trackGuard track = some j →
    ∃ t, w.task j = some t ∧ t.pc.locked = true ∧ t.track = some track

theorem World.trackGuard_of_dropTrackGuard {w : World} {k j : RequestId} {track : FullTrackName}
    (h : (w.dropTrackGuard k).trackGuard track = some j) :
    w.trackGuard track = some j ∧ j ≠ k := by
  change (if w.trackGuard track = some k then none else w.trackGuard track) = some j at h
  split at h
  · cases h
  next hother =>
    refine ⟨h, ?_⟩
    rintro rfl
    exact hother h

/-- Where a lock comes from: it was held before by a task that still has it, or has been taken. -/
theorem SubscribeStep.holder {w w' : World} {k : RequestId} {t : SubscribeTask} {input : Input}
    (h : SubscribeStep w k t input w') (ht : w.task k = some t) (hback : GivesBack w)
    {track : FullTrackName} {j : RequestId} (hguard : w'.trackGuard track = some j) :
    (w.trackGuard track = some j ∧ j ≠ k) ∨
      j = k ∧ ∃ t', w'.task k = some t' ∧ t'.pc.locked = true ∧ t'.track = some track := by
  have stay (f : SubscribeTask → SubscribeTask) := World.task_update_self f ht
  have before (hsame : w.trackGuard track = some j) :
      j ≠ k ∨ j = k ∧ t.pc.locked = true ∧ t.track = some track := by
    by_cases hjk : j = k
    · subst hjk
      obtain ⟨t₀, ht₀, hlocked, htrack⟩ := hback track j hsame
      obtain rfl := Option.mem_unique ht ht₀
      exact .inr ⟨rfl, hlocked, htrack⟩
    · exact .inl hjk
  -- a task that has had the lock, and goes on with it
  have keeps {t' : SubscribeTask} (hsame : w.trackGuard track = some j)
      (ht' : w'.task k = some t') (hlocked' : t'.pc.locked = true)
      (htrack' : t'.track = t.track) : (w.trackGuard track = some j ∧ j ≠ k) ∨
        j = k ∧ ∃ t', w'.task k = some t' ∧ t'.pc.locked = true ∧ t'.track = some track := by
    rcases before hsame with hjk | ⟨hjk, -, htrack⟩
    · exact .inl ⟨hsame, hjk⟩
    · exact .inr ⟨hjk, t', ht', hlocked', htrack'.trans htrack⟩
  -- a task that has not had the lock
  have lacks (hsame : w.trackGuard track = some j) (hfree : t.pc.locked = false) :
      (w.trackGuard track = some j ∧ j ≠ k) ∨
        j = k ∧ ∃ t', w'.task k = some t' ∧ t'.pc.locked = true ∧ t'.track = some track := by
    rcases before hsame with hjk | ⟨-, hlocked, -⟩
    · exact .inl ⟨hsame, hjk⟩
    · rw [hfree] at hlocked
      cases hlocked
  cases h with
  | @lockTrack hpc track' htrack hfree =>
    change Function.update w.trackGuard track' (some k) track = some j at hguard
    by_cases heq : track = track'
    · subst heq
      rw [Function.update_self] at hguard
      obtain rfl := Option.some.inj hguard
      exact .inr ⟨rfl, _, stay _, rfl, htrack⟩
    · rw [Function.update_of_ne heq] at hguard
      exact lacks hguard (by rw [hpc]; rfl)
  | record | silent | reject | forwardLast | notDone | notified =>
    exact .inl (World.trackGuard_of_dropTrackGuard hguard)
  | join | vacant | found | noPublisher | opened | sent | answered =>
    exact keeps hguard (stay _) rfl rfl
  | unsupported hpc | named hpc | trackLock hpc | forwarded hpc | done hpc | fetch hpc
  | notify hpc =>
    exact lacks hguard (by rw [hpc]; rfl)

theorem GivesBack.step {w w' : World} {l : Label} (h : GivesBack w) (hstep : Step w l w') :
    GivesBack w' := by
  intro track j hguard
  cases hstep with
  | event hconn hstatus event =>
    cases event with
    | subscribe message =>
      obtain ⟨t, ht, hholds⟩ := h track j hguard
      exact ⟨t, World.task_spawn.mpr (.inl ht), hholds⟩
    | _ => exact h track j hguard
  | dataStream ht hs =>
    rw [hs.frame] at hguard ⊢
    exact h track j hguard
  | subscribe ht hs =>
    rcases hs.holder ht h hguard with ⟨hold, hjk⟩ | ⟨rfl, hholds⟩
    · obtain ⟨u, hu, hlocked, htrack⟩ := h track j hold
      obtain ⟨u', hu', hagree⟩ := hs.other hjk hu
      exact ⟨u', hu', hagree.pc ▸ hlocked, hagree.track ▸ htrack⟩
    · exact hholds
  | _ => exact h track j hguard

/-- What is known of the tasks and the locks in every reachable state. -/
structure Orderly (w : World) : Prop where
  known : Known w
  equipped : AllEquipped w
  guarded : Guarded w
  givesBack : GivesBack w

theorem orderly_of_reachable {w : World} (h : relay.Reachable w) : Orderly w := by
  refine h.invariant (I := Orderly) ⟨.new, ?_, .new, ?_⟩ fun w l w' hI hstep => ?_
  · exact fun j t ht => absurd ht (World.not_task_new j)
  · intro track j hguard
    cases hguard
  · have hstep := Step.of_step hstep
    exact ⟨hI.known.step hstep, hI.equipped.step hI.known.lifecycle hstep, hI.guarded.step hstep,
      hI.givesBack.step hstep⟩

/-! ### Tasks that can go on -/

/-- The connection of the publisher is there. -/
theorem Known.connection {w : World} (h : Known w) {k : RequestId} {t : SubscribeTask}
    (ht : w.task k = some t) {publisher : SessionId × MoqtSession}
    (hpublisher : t.publisher = some publisher) :
    ∃ conn, w.connections[publisher.2.connection]? = some conn := by
  have hlt := h.publishers k t ht publisher hpublisher
  rw [h.numbered.next, ← h.handles k t ht publisher hpublisher] at hlt
  exact ⟨_, List.getElem?_eq_getElem hlt⟩

/-- A task goes on, if no lock that it waits for is held; the network can fail what it reads. -/
theorem Orderly.exists_subscribe {w : World} (h : Orderly w) {k : RequestId} {t : SubscribeTask}
    (ht : w.task k = some t) (hpc : t.pc ≠ .returned)
    (hstate : w.stateGuard = none ∨ t.pc = .rejectNoPublisher)
    (hlock : t.pc = .lockTrack → ∀ track ∈ t.track, w.trackGuard track = none) :
    ∃ input w', (∀ message, input ≠ .response (some message)) ∧
      w.subscribe k input = some w' := by
  have equipped := h.equipped k t ht
  have formed := h.known.lifecycle.formed k t ht
  have go (input : Input) (hinput : ∀ message, input ≠ .response (some message))
      (hsome : (w.subscribe k input).isSome = true) :
      ∃ input w', (∀ message, input ≠ .response (some message)) ∧
        w.subscribe k input = some w' := by
    obtain ⟨w', hw'⟩ := Option.isSome_iff_exists.mp hsome
    exact ⟨input, w', hinput, hw'⟩
  have free (hne : t.pc ≠ .rejectNoPublisher) : w.stateGuard = none := hstate.resolve_right hne
  have track (hnamed : t.pc.named = true) : ∃ track, t.track = some track :=
    Option.isSome_iff_exists.mp (equipped.track hnamed)
  cases hat : t.pc with
  | start =>
    refine go .proceed (by simp) ?_
    simp only [World.subscribe, ht, hat, Option.bind_eq_bind, Option.bind_some]
    split
    · rfl
    · split <;> rfl
  | rejectFilter => exact go (.responded k true) (by simp) (by simp [World.subscribe, ht, hat])
  | trackLock =>
    obtain ⟨track, htrack⟩ := track (by simp [hat, SubscribePc.named])
    refine go .proceed (by simp) ?_
    simp [World.subscribe, ht, hat, htrack, free (by simp [hat])]
  | lockTrack =>
    obtain ⟨track, htrack⟩ := track (by simp [hat, SubscribePc.named])
    refine go .proceed (by simp) ?_
    simp [World.subscribe, ht, hat, htrack, hlock hat track htrack]
  | aggregate =>
    obtain ⟨track, htrack⟩ := track (by simp [hat, SubscribePc.named])
    refine go .proceed (by simp) ?_
    cases hsub : w.state.subscriptions.lookup track <;>
      simp [World.subscribe, ht, hat, htrack, free (by simp [hat]), hsub]
  | forwardExisting =>
    obtain ⟨answer, hanswer⟩ := Option.isSome_iff_exists.mp (equipped.answer hat)
    refine go (.responded k true) (by simp) ?_
    cases hencode : answer.message.encode.isOk <;>
      simp [World.subscribe, ht, hat, hanswer, hencode]
  | findPublisher =>
    refine go .proceed (by simp) ?_
    cases hfound : w.state.findPublisher t.message.trackNamespace <;>
      simp [World.subscribe, ht, hat, free (by simp [hat]), hfound]
  | rejectNoPublisher => exact go (.responded k true) (by simp) (by simp [World.subscribe, ht, hat])
  | openUpstream =>
    obtain ⟨track, htrack⟩ := track (by simp [hat, SubscribePc.named])
    obtain ⟨publisher, hpublisher⟩ := Option.isSome_iff_exists.mp
      (equipped.publisher (by simp [hat, SubscribePc.routed]))
    obtain ⟨conn, hconn⟩ := h.known.connection ht hpublisher
    exact go (.opened true) (by simp)
      (by simp [World.subscribe, ht, hat, htrack, hpublisher, hconn])
  | writeUpstream =>
    obtain ⟨request, hrequest⟩ := Option.isSome_iff_exists.mp (equipped.request hat)
    refine go (.wrote true) (by simp) ?_
    cases hencode : request.encode.isOk <;> simp [World.subscribe, ht, hat, hrequest, hencode]
  | awaitUpstream => exact go (.response none) (by simp) (by simp [World.subscribe, ht, hat])
  | record =>
    obtain ⟨track, htrack⟩ := track (by simp [hat, SubscribePc.named])
    obtain ⟨publisher, hpublisher⟩ := Option.isSome_iff_exists.mp
      (equipped.publisher (by simp [hat, SubscribePc.routed]))
    obtain ⟨ok, hok⟩ := formed.own (by simp [hat, SubscribePc.owning])
    exact go .proceed (by simp)
      (by simp [World.subscribe, ht, hat, htrack, hpublisher, hok, free (by simp [hat])])
  | forwardOk =>
    obtain ⟨ok, hok⟩ := formed.own (by simp [hat, SubscribePc.owning])
    refine go (.responded k true) (by simp) ?_
    cases hencode : ok.encode.isOk <;> simp [World.subscribe, ht, hat, hok, hencode]
  | awaitDone => exact go (.response none) (by simp) (by simp [World.subscribe, ht, hat])
  | fetchSubscribers =>
    obtain ⟨track, htrack⟩ := track (by simp [hat, SubscribePc.named])
    exact go .proceed (by simp) (by simp [World.subscribe, ht, hat, htrack, free (by simp [hat])])
  | notify =>
    cases htodo : t.subsToNotify with
    | nil => exact go .proceed (by simp) (by simp [World.subscribe, ht, hat, htodo])
    | cons r rs =>
      obtain ⟨done, hdone⟩ := Option.isSome_iff_exists.mp
        (formed.announcing (by simp [hat, SubscribePc.announcing]))
      exact go (.responded r true) (by simp) (by simp [World.subscribe, ht, hat, htodo, hdone])
  | returned => exact absurd hat hpc

/-- Where a task has not returned, one of the tasks goes on: the one that holds the mutex of the
state; or one that holds the lock of a track; or else that task itself. -/
theorem Orderly.exists_turn {w : World} (h : Orderly w) {k : RequestId} {t : SubscribeTask}
    (ht : w.task k = some t) (hpc : t.pc ≠ .returned) :
    ∃ j u input w', w.task j = some u ∧ (∀ message, input ≠ .response (some message)) ∧
      w.subscribe j input = some w' := by
  cases hstate : w.stateGuard with
  | some j =>
    obtain ⟨u, hu, hat⟩ := (h.guarded j).mp hstate
    obtain ⟨input, w', hinput, hw'⟩ :=
      h.exists_subscribe hu (by simp [hat]) (.inr hat) (by simp [hat])
    exact ⟨j, u, input, w', hu, hinput, hw'⟩
  | none =>
    by_cases hheld : ∃ track j, w.trackGuard track = some j
    · obtain ⟨track, j, hguard⟩ := hheld
      obtain ⟨u, hu, hlocked, -⟩ := h.givesBack track j hguard
      have hne : u.pc ≠ .returned ∧ u.pc ≠ .lockTrack := by
        constructor <;> rintro hat <;> rw [hat] at hlocked <;> cases hlocked
      obtain ⟨input, w', hinput, hw'⟩ :=
        h.exists_subscribe hu hne.1 (.inl hstate) fun hat => absurd hat hne.2
      exact ⟨j, u, input, w', hu, hinput, hw'⟩
    · have hfree : ∀ track, w.trackGuard track = none := by
        intro track
        cases hguard : w.trackGuard track with
        | none => rfl
        | some j => exact absurd ⟨track, j, hguard⟩ hheld
      obtain ⟨input, w', hinput, hw'⟩ :=
        h.exists_subscribe ht hpc (.inl hstate) fun _ track _ => hfree track
      exact ⟨k, t, input, w', ht, hinput, hw'⟩

end Moqt.Relay
