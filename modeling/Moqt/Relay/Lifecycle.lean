import Moqt.Library.Table
import Moqt.Relay.Step

/-! The life of a SUBSCRIBE.  `Move` says what a step makes of the variables of the task that takes
it, `TaskStep` what any step makes of any task. -/

namespace Moqt.Relay

open Library Wire

/-! ### Stages of the handler -/

namespace SubscribePc

/-- The task has not asked for the lock of its track to the end. -/
def early : SubscribePc → Bool
  | .start | .rejectFilter | .trackLock | .lockTrack => true
  | _ => false

/-- The task has found no subscription for its track and has no SUBSCRIBE_OK of its own yet. -/
def searching : SubscribePc → Bool
  | .findPublisher | .rejectNoPublisher | .openUpstream | .writeUpstream | .awaitUpstream => true
  | _ => false

/-- The task holds the lock of its track. -/
def locked : SubscribePc → Bool
  | .aggregate | .forwardExisting | .record => true
  | pc => pc.searching

/-- Nothing is recorded for the track until the task is past this stage. -/
def recording : SubscribePc → Bool
  | .record => true
  | pc => pc.searching

def unanswered : SubscribePc → Bool
  | .aggregate => true
  | pc => pc.early || pc.searching

/-- The task has a SUBSCRIBE_OK from its own upstream request and works on. -/
def owning : SubscribePc → Bool
  | .record | .forwardOk | .awaitDone | .fetchSubscribers | .notify => true
  | _ => false

/-- The task has a PUBLISH_DONE to pass on. -/
def announcing : SubscribePc → Bool
  | .fetchSubscribers | .notify => true
  | _ => false

/-- The task has a PUBLISH_DONE, if it has not left before. -/
def ending : SubscribePc → Bool
  | .fetchSubscribers | .notify | .returned => true
  | _ => false

/-- The task has fetched the subscribers to notify. -/
def fetched : SubscribePc → Bool
  | .notify | .returned => true
  | _ => false

variable {pc : SubscribePc}

theorem eq_of_fetched (h : pc.fetched = true) : pc = .notify ∨ pc = .returned := by
  cases pc <;> first | exact .inl rfl | exact .inr rfl | cases h

theorem unanswered_of_early (h : pc.early = true) : pc.unanswered = true := by
  cases pc <;> first | rfl | cases h

theorem unanswered_of_searching (h : pc.searching = true) : pc.unanswered = true := by
  cases pc <;> first | rfl | cases h

theorem locked_of_searching (h : pc.searching = true) : pc.locked = true := by
  cases pc <;> first | rfl | cases h

theorem not_owning_of_unanswered (h : pc.unanswered = true) : pc.owning = false := by
  cases pc <;> first | rfl | cases h

theorem not_ending_of_unanswered (h : pc.unanswered = true) : pc.ending = false := by
  cases pc <;> first | rfl | cases h

theorem not_announcing_of_unanswered (h : pc.unanswered = true) : pc.announcing = false := by
  cases pc <;> first | rfl | cases h

theorem locked_of_recording (h : pc.recording = true) : pc.locked = true := by
  cases pc <;> first | rfl | cases h

theorem recording_of_searching (h : pc.searching = true) : pc.recording = true := by
  cases pc <;> first | rfl | cases h

theorem not_recording_of_early (h : pc.early = true) : pc.recording = false := by
  cases pc <;> first | rfl | cases h

theorem not_locked_of_early (h : pc.early = true) : pc.locked = false := by
  cases pc <;> first | rfl | cases h

end SubscribePc

/-! ### Moves -/

/-- The tasks differ at most in what has been written to the subscriber. -/
structure Agree (t t' : SubscribeTask) : Prop where
  session : t'.session = t.session
  message : t'.message = t.message
  pc : t'.pc = t.pc
  track : t'.track = t.track
  publisher : t'.publisher = t.publisher
  upstreamRequest : t'.upstreamRequest = t.upstreamRequest
  subscribeOk : t'.subscribeOk = t.subscribeOk
  publishDone : t'.publishDone = t.publishDone
  subsToNotify : t'.subsToNotify = t.subsToNotify

theorem Agree.refl (t : SubscribeTask) : Agree t t :=
  ⟨rfl, rfl, rfl, rfl, rfl, rfl, rfl, rfl, rfl⟩

theorem Agree.wrote (t : SubscribeTask) (response : Response) (ok : Bool) :
    Agree t (t.wrote response ok) := by
  constructor <;> simp

/-- What a step of the task `k` makes of its variables, up to what it writes. -/
inductive Move (w : World) (k : RequestId) (t : SubscribeTask) (input : Input) :
    SubscribeTask → Prop
  | early {pc : SubscribePc} (hpc : t.pc.early = true) (hpc' : pc.early = true)
      (track : Option FullTrackName) : Move w k t input { t with pc, track }
  | lock (hpc : t.pc = .lockTrack) : Move w k t input { t with pc := .aggregate }
  | join (hpc : t.pc = .aggregate) {track : FullTrackName} {existing : Subscription}
      (htrack : t.track = some track)
      (hexisting : w.state.subscriptions.lookup track = some existing) :
    Move w k t input { t with pc := .forwardExisting, subscribeOk := some existing.subscribeOk }
  | vacant (hpc : t.pc = .aggregate) {track : FullTrackName} (htrack : t.track = some track)
      (hvacant : w.state.subscriptions.lookup track = none) :
    Move w k t input { t with pc := .findPublisher }
  | search {pc : SubscribePc} (hpc : t.pc.searching = true) (hpc' : pc.searching = true)
      (publisher : Option (SessionId × MoqtSession)) (upstreamRequest : Option SubscribeMessage) :
    Move w k t input { t with pc, publisher, upstreamRequest }
  | answered (hpc : t.pc = .awaitUpstream) (ok : SubscribeOkMessage)
      (hinput : input = .response (some (.subscribeOk ok))) :
    Move w k t input { t with pc := .record, subscribeOk := some ⟨k, ok⟩ }
  | record (hpc : t.pc = .record) : Move w k t input { t with pc := .forwardOk }
  | forwarded (hpc : t.pc = .forwardOk)
      (hencode : ∀ answer ∈ t.subscribeOk, answer.message.encode.isOk = true) :
    Move w k t input { t with pc := .awaitDone }
  | done (hpc : t.pc = .awaitDone) (done : PublishDoneMessage)
      (hinput : input = .response (some (.publishDone done))) :
    Move w k t input { t with pc := .fetchSubscribers, publishDone := some ⟨k, done⟩ }
  | fetch (hpc : t.pc = .fetchSubscribers) {track : FullTrackName} (htrack : t.track = some track) :
    Move w k t input { t with pc := .notify, subsToNotify := w.state.findSubscriberRequests track }
  | notify (hpc : t.pc = .notify) {r : RequestId} {rs : List RequestId}
      (htodo : t.subsToNotify = r :: rs) : Move w k t input { t with subsToNotify := rs }
  | leave (hpc : t.pc ≠ .returned ∧ t.pc ≠ .fetchSubscribers)
      (htodo : t.pc = .notify → t.subsToNotify = []) : Move w k t input { t with pc := .returned }

theorem World.task_update_self {w : World} {k : RequestId} {t : SubscribeTask}
    (f : SubscribeTask → SubscribeTask) (ht : w.task k = some t) :
    (w.update k f).task k = some (f t) := by
  simp [ht]

/-- What holds of every task, and of the new one in place of the task `k`, holds after the
update. -/
theorem World.forall_task_update {w : World} {P : RequestId → SubscribeTask → Prop}
    (h : ∀ j t, w.task j = some t → P j t) {k : RequestId} {f : SubscribeTask → SubscribeTask}
    (hf : ∀ t, w.task k = some t → P k (f t)) (j : RequestId) (t : SubscribeTask)
    (ht : (w.update k f).task j = some t) : P j t := by
  rw [World.task_update] at ht
  split at ht
  · obtain ⟨t₀, ht₀, rfl⟩ := Option.map_eq_some_iff.mp ht
    subst j
    exact hf t₀ ht₀
  · exact h j t ht

theorem SubscribeStep.move {w w' : World} {k : RequestId} {t : SubscribeTask} {input : Input}
    (h : SubscribeStep w k t input w') (ht : w.task k = some t) :
    ∃ u t', w'.task k = some t' ∧ Agree u t' ∧ Move w k t input u := by
  have stay (f : SubscribeTask → SubscribeTask) := World.task_update_self f ht
  cases h with
  | unsupported hpc hfilter =>
    exact ⟨_, _, stay _, .refl _, .early (by simp [hpc, SubscribePc.early]) rfl t.track⟩
  | named hpc hfilter htrack =>
    exact ⟨_, _, stay _, .refl _, .early (by simp [hpc, SubscribePc.early]) rfl _⟩
  | silent hpc h =>
    refine ⟨_, _, stay _, .refl _, .leave ⟨hpc.1, fun heq => ?_⟩ fun heq => ?_⟩ <;>
      simp [SilentExit, heq] at h
  | reject hpc error ok =>
    refine ⟨{ t with pc := .returned }, _, by simp [ht]; rfl, ?_, .leave ?_ ?_⟩
    · constructor <;> simp
    · rcases hpc with hpc | hpc <;> simp [hpc]
    · rcases hpc with hpc | hpc <;> simp [hpc]
  | trackLock hpc htrack hfree =>
    exact ⟨_, _, stay _, .refl _, .early (by simp [hpc, SubscribePc.early]) rfl t.track⟩
  | lockTrack hpc htrack hfree => exact ⟨_, _, stay _, .refl _, .lock hpc⟩
  | join hpc htrack hfree hexisting =>
    exact ⟨_, _, stay _, .refl _, .join hpc htrack hexisting⟩
  | vacant hpc htrack hfree hvacant =>
    exact ⟨_, _, stay _, .refl _, .vacant hpc htrack hvacant⟩
  | found hpc hfree hfound =>
    exact ⟨_, _, stay _, .refl _, .search (by simp [hpc, SubscribePc.searching]) rfl _ _⟩
  | noPublisher hpc hfree hnone =>
    exact ⟨_, _, stay _, .refl _, .search (by simp [hpc, SubscribePc.searching]) rfl _ _⟩
  | opened hpc htrack hpublisher hconn =>
    exact ⟨_, _, stay _, .refl _, .search (by simp [hpc, SubscribePc.searching]) rfl _ _⟩
  | sent hpc hrequest hencode =>
    exact ⟨_, _, stay _, .refl _, .search (by simp [hpc, SubscribePc.searching]) rfl _ _⟩
  | answered hpc ok => exact ⟨_, _, stay _, .refl _, .answered hpc ok rfl⟩
  | record hpc htrack hpublisher hanswer hfree => exact ⟨_, _, stay _, .refl _, .record hpc⟩
  | forwardLast ok hpc hanswer hencode =>
    refine ⟨{ t with pc := .returned }, _, by simp [ht]; rfl, ?_, .leave ?_ ?_⟩
    · constructor <;> simp
    · rcases hpc with hpc | ⟨hpc, -⟩ <;> simp [hpc]
    · rcases hpc with hpc | ⟨hpc, -⟩ <;> simp [hpc]
  | forwarded hpc hanswer hencode =>
    refine ⟨{ t with pc := .awaitDone }, _, by simp [ht]; rfl, ?_, .forwarded hpc fun _ h => ?_⟩
    · constructor <;> simp
    · exact Option.mem_unique hanswer h ▸ hencode
  | done hpc done => exact ⟨_, _, stay _, .refl _, .done hpc done rfl⟩
  | notDone hpc hmessage =>
    exact ⟨_, _, stay _, .refl _, .leave (by simp [hpc]) (by simp [hpc])⟩
  | fetch hpc htrack hfree => exact ⟨_, _, stay _, .refl _, .fetch hpc htrack⟩
  | @notify hpc done hdone r rs htodo ok =>
    by_cases hkr : k = r
    · subst hkr
      refine ⟨{ t with subsToNotify := rs }, _, by simp [ht]; rfl, ?_, .notify hpc htodo⟩
      constructor <;> simp [htodo]
    · refine ⟨{ t with subsToNotify := rs }, _, by simp [ht, hkr]; rfl, ?_, .notify hpc htodo⟩
      constructor <;> simp [htodo]
  | notified hpc htodo =>
    exact ⟨_, _, stay _, .refl _, .leave (by simp [hpc]) fun _ => htodo⟩

/-- A step of the task `k` does nothing to the variables of another task. -/
theorem SubscribeStep.other {w w' : World} {k : RequestId} {t : SubscribeTask} {input : Input}
    (h : SubscribeStep w k t input w') {j : RequestId} (hne : j ≠ k) {u : SubscribeTask}
    (hu : w.task j = some u) : ∃ u', w'.task j = some u' ∧ Agree u u' := by
  cases h with
  | @notify hpc done hdone r rs htodo ok =>
    by_cases hjr : j = r
    · subst hjr
      exact ⟨_, by simp [hu, hne]; rfl, .wrote u _ _⟩
    · exact ⟨u, by simp [hu, hne, hjr], .refl u⟩
  | _ => exact ⟨u, by simp [hu, hne], .refl u⟩

theorem SubscribeStep.absent {w w' : World} {k : RequestId} {t : SubscribeTask} {input : Input}
    (h : SubscribeStep w k t input w') {j : RequestId} (hj : w.task j = none) :
    w'.task j = none := by
  cases h <;> simp [hj]

/-- What a step makes of the task `j`, which may not be there yet. -/
inductive TaskStep (w : World) (l : Label) (j : RequestId) :
    Option SubscribeTask → Option SubscribeTask → Prop
  | absent : TaskStep w l j none none
  | spawned (session : SessionId) (message : SubscribeMessage) :
    TaskStep w l j none (some { session, message })
  | kept {t t' : SubscribeTask} (h : Agree t t') : TaskStep w l j (some t) (some t')
  | moved {t u t' : SubscribeTask} {input : Input} (hl : l = .subscribe j input) (h : Agree u t')
      (hmove : Move w j t input u) : TaskStep w l j (some t) (some t')

theorem TaskStep.of_eq {w : World} {l : Label} {j : RequestId} {o o' : Option SubscribeTask}
    (h : o' = o) : TaskStep w l j o o' := by
  subst h
  cases o' with
  | none => exact .absent
  | some t => exact .kept (.refl t)

theorem World.task_spawn {w : World} {session : SessionId} {message : SubscribeMessage}
    {j : RequestId} {t : SubscribeTask} :
    (w.spawn session (.subscribe message)).task j = some t ↔
      w.task j = some t ∨ j = w.subscribes.length ∧ t = { session, message } :=
  Table.getElem?_concat

theorem Step.task {w w' : World} {l : Label} (h : Step w l w') (j : RequestId) :
    TaskStep w l j (w.task j) (w'.task j) := by
  cases h with
  | event hconn hstatus event =>
    cases event with
    | subscribe message =>
      cases hj : w.task j with
      | some t =>
        rw [World.task_spawn.mpr (.inl hj)]
        exact .kept (.refl t)
      | none =>
        cases hj' : (w.spawn _ (.subscribe message)).task j with
        | none => exact .absent
        | some t' =>
          rcases World.task_spawn.mp hj' with hold | ⟨-, rfl⟩
          · rw [hj] at hold
            cases hold
          · exact .spawned _ _
    | _ => exact .of_eq rfl
  | dataStream ht h =>
    rw [h.frame]
    exact .of_eq rfl
  | @subscribe k t input w' ht h =>
    by_cases hjk : j = k
    · subst hjk
      obtain ⟨u, t', ht', hagree, hmove⟩ := h.move ht
      rw [ht, ht']
      exact .moved rfl hagree hmove
    · cases hj : w.task j with
      | some t₀ =>
        obtain ⟨t', ht', hagree⟩ := h.other hjk hj
        rw [ht']
        exact .kept hagree
      | none => exact .of_eq (h.absent hj)
  | _ => exact .of_eq rfl

/-- A task that is there after a step was there before it, or has just been spawned. -/
theorem Step.before {w w' : World} {l : Label} (h : Step w l w') {j : RequestId}
    {t' : SubscribeTask} (ht' : w'.task j = some t') :
    (∃ t, w.task j = some t) ∨ ∃ session message, t' = { session, message } := by
  cases ht : w.task j with
  | some t => exact .inl ⟨t, rfl⟩
  | none =>
    have hj := h.task j
    rw [ht, ht'] at hj
    cases hj with
    | spawned session message => exact .inr ⟨session, message, rfl⟩

/-- No task goes away. -/
theorem Step.after {w w' : World} {l : Label} (h : Step w l w') {j : RequestId} {t : SubscribeTask}
    (ht : w.task j = some t) : ∃ t', w'.task j = some t' := by
  have hj := h.task j
  rw [ht] at hj
  cases ht' : w'.task j with
  | some t' => exact ⟨t', rfl⟩
  | none =>
    rw [ht'] at hj
    cases hj

/-! ### What a task knows at each stage -/

structure SubscribeTask.Wf (k : RequestId) (t : SubscribeTask) : Prop where
  unanswered : t.pc.unanswered = true → t.subscribeOk = none
  own : t.pc.owning = true → ∃ ok, t.subscribeOk = some ⟨k, ok⟩
  done : ∀ d, t.publishDone = some d →
    d.upstream = k ∧ t.pc.ending = true ∧ ∃ ok, t.subscribeOk = some ⟨k, ok⟩
  announcing : t.pc.announcing = true → t.publishDone.isSome

theorem SubscribeTask.Wf.agree {k : RequestId} {t t' : SubscribeTask} (h : t.Wf k)
    (hagree : Agree t t') : t'.Wf k := by
  constructor
  · rw [hagree.pc, hagree.subscribeOk]
    exact h.unanswered
  · rw [hagree.pc, hagree.subscribeOk]
    exact h.own
  · rw [hagree.pc, hagree.subscribeOk, hagree.publishDone]
    exact h.done
  · rw [hagree.pc, hagree.publishDone]
    exact h.announcing

/-- Before a SUBSCRIBE_OK there is no PUBLISH_DONE. -/
theorem SubscribeTask.Wf.publishDone_none {k : RequestId} {t : SubscribeTask} (h : t.Wf k)
    (hpc : t.pc.ending = false) : t.publishDone = none := by
  cases hd : t.publishDone with
  | none => rfl
  | some d =>
    obtain ⟨-, hending, -⟩ := h.done d hd
    rw [hpc] at hending
    cases hending

theorem Move.wf {w : World} {k : RequestId} {t u : SubscribeTask} {input : Input}
    (h : Move w k t input u) (hwf : t.Wf k) : u.Wf k := by
  -- at a stage without answer, nothing is known of SUBSCRIBE_OK and PUBLISH_DONE
  have quiet {u : SubscribeTask} (hok : u.subscribeOk = t.subscribeOk)
      (hdone : u.publishDone = t.publishDone) (hpc : t.pc.unanswered = true)
      (hpc' : u.pc.unanswered = true) : u.Wf k := by
    have hnone := hwf.publishDone_none (SubscribePc.not_ending_of_unanswered hpc)
    constructor
    · rw [hok]
      exact fun _ => hwf.unanswered hpc
    · rw [SubscribePc.not_owning_of_unanswered hpc']
      exact fun h => nomatch h
    · rw [hdone, hnone]
      exact fun _ h => nomatch h
    · rw [SubscribePc.not_announcing_of_unanswered hpc']
      exact fun h => nomatch h
  cases h with
  | early hpc hpc' track =>
    exact quiet rfl rfl (SubscribePc.unanswered_of_early hpc) (SubscribePc.unanswered_of_early hpc')
  | lock hpc => exact quiet rfl rfl (by rw [hpc]; rfl) rfl
  | vacant hpc htrack hvacant => exact quiet rfl rfl (by rw [hpc]; rfl) rfl
  | search hpc hpc' publisher upstreamRequest =>
    exact quiet rfl rfl (SubscribePc.unanswered_of_searching hpc)
      (SubscribePc.unanswered_of_searching hpc')
  | join hpc htrack hexisting =>
    have hnone := hwf.publishDone_none (by rw [hpc]; rfl)
    exact ⟨nofun, nofun, by simp [hnone], nofun⟩
  | answered hpc ok hinput =>
    have hnone := hwf.publishDone_none (by rw [hpc]; rfl)
    exact ⟨nofun, fun _ => ⟨ok, rfl⟩, by simp [hnone], nofun⟩
  | record hpc =>
    have hnone := hwf.publishDone_none (by rw [hpc]; rfl)
    exact ⟨nofun, fun _ => hwf.own (by rw [hpc]; rfl), by simp [hnone], nofun⟩
  | forwarded hpc =>
    have hnone := hwf.publishDone_none (by rw [hpc]; rfl)
    exact ⟨nofun, fun _ => hwf.own (by rw [hpc]; rfl), by simp [hnone], nofun⟩
  | done hpc done hinput =>
    have hown := hwf.own (by rw [hpc]; rfl)
    exact ⟨nofun, fun _ => hown, by rintro _ ⟨⟩; exact ⟨rfl, rfl, hown⟩, fun _ => rfl⟩
  | fetch hpc htrack =>
    have hown := hwf.own (by rw [hpc]; rfl)
    refine ⟨nofun, fun _ => hown, fun d hd => ?_, fun _ => hwf.announcing (by rw [hpc]; rfl)⟩
    exact ⟨(hwf.done d hd).1, rfl, hown⟩
  | notify hpc htodo => exact ⟨hwf.unanswered, hwf.own, hwf.done, hwf.announcing⟩
  | leave hpc htodo =>
    refine ⟨nofun, nofun, fun d hd => ?_, nofun⟩
    obtain ⟨hk, -, hok⟩ := hwf.done d hd
    exact ⟨hk, rfl, hok⟩

/-- Every task is as its stage says. -/
def Formed (w : World) : Prop := ∀ (j : RequestId) (t : SubscribeTask), w.task j = some t → t.Wf j

theorem SubscribeTask.Wf.new (k : RequestId) (session : SessionId) (message : SubscribeMessage) :
    SubscribeTask.Wf k { session, message } :=
  ⟨fun _ => rfl, nofun, nofun, nofun⟩

theorem Formed.new : Formed .new := fun j _ ht => absurd ht (World.not_task_new j)

theorem Formed.step {w w' : World} {l : Label} (h : Formed w) (hstep : Step w l w') :
    Formed w' := by
  intro j t' ht'
  have hj := hstep.task j
  rw [ht'] at hj
  generalize ho : w.task j = o at hj
  cases hj with
  | spawned session message => exact .new j session message
  | kept hagree => exact (h j _ ho).agree hagree
  | moved hl hagree hmove => exact (hmove.wf (h j _ ho)).agree hagree

/-! ### What an answered task keeps -/

/-- From its SUBSCRIBE_OK on, a task keeps what it has subscribed to. -/
structure Keeps (t t' : SubscribeTask) : Prop where
  session : t'.session = t.session
  track : t'.track = t.track
  publisher : t'.publisher = t.publisher
  subscribeOk : t'.subscribeOk = t.subscribeOk

theorem Agree.keeps {t t' : SubscribeTask} (h : Agree t t') : Keeps t t' :=
  ⟨h.session, h.track, h.publisher, h.subscribeOk⟩

theorem Keeps.trans {t t' t'' : SubscribeTask} (h : Keeps t t') (h' : Keeps t' t'') :
    Keeps t t'' :=
  ⟨h'.session.trans h.session, h'.track.trans h.track, h'.publisher.trans h.publisher,
    h'.subscribeOk.trans h.subscribeOk⟩

theorem Move.keeps {w : World} {k : RequestId} {t u : SubscribeTask} {input : Input}
    (h : Move w k t input u) (hwf : t.Wf k) {answer : Received SubscribeOkMessage}
    (hok : t.subscribeOk = some answer) : Keeps t u := by
  have answered (hpc : t.pc.unanswered = true) : False := by
    rw [hwf.unanswered hpc] at hok
    cases hok
  cases h with
  | early hpc hpc' track => exact (answered (SubscribePc.unanswered_of_early hpc)).elim
  | search hpc hpc' publisher upstreamRequest =>
    exact (answered (SubscribePc.unanswered_of_searching hpc)).elim
  | join hpc htrack hexisting => exact (answered (by rw [hpc]; rfl)).elim
  | answered hpc ok hinput => exact (answered (by rw [hpc]; rfl)).elim
  | _ => exact ⟨rfl, rfl, rfl, rfl⟩

theorem Step.keeps {w w' : World} {l : Label} (h : Step w l w') (hformed : Formed w)
    {j : RequestId} {t : SubscribeTask} (ht : w.task j = some t)
    {answer : Received SubscribeOkMessage} (hok : t.subscribeOk = some answer) :
    ∃ t', w'.task j = some t' ∧ Keeps t t' := by
  have hj := h.task j
  rw [ht] at hj
  generalize ho : w'.task j = o at hj
  cases hj with
  | kept hagree => exact ⟨_, rfl, hagree.keeps⟩
  | moved hl hagree hmove =>
    exact ⟨_, rfl, (hmove.keeps (hformed j t ht) hok).trans hagree.keeps⟩

/-- A task that has fetched the subscribers only works its list off. -/
theorem Step.fetched {w w' : World} {l : Label} (h : Step w l w') {k : RequestId}
    {owner : SubscribeTask} (ho : w.task k = some owner) (hpc : owner.pc.fetched = true) :
    ∃ owner', w'.task k = some owner' ∧ owner'.pc.fetched = true ∧
      owner'.publishDone = owner.publishDone ∧
      owner'.subsToNotify.Sublist owner.subsToNotify := by
  have hk := h.task k
  rw [ho] at hk
  generalize w'.task k = o at hk
  cases hk with
  | kept hagree =>
    refine ⟨_, rfl, ?_, hagree.publishDone, ?_⟩
    · rw [hagree.pc, hpc]
    · rw [hagree.subsToNotify]
  | moved hl hagree hmove =>
    cases hmove with
    | notify hpc' htodo =>
      refine ⟨_, rfl, ?_, hagree.publishDone, ?_⟩
      · rw [hagree.pc, hpc]
      · rw [hagree.subsToNotify, htodo]
        exact List.sublist_cons_self _ _
    | leave hpc' htodo =>
      refine ⟨_, rfl, ?_, hagree.publishDone, ?_⟩
      · rw [hagree.pc]
        rfl
      · rw [hagree.subsToNotify]
    | early hpc' | search hpc' | lock hpc' | join hpc' | vacant hpc' | answered hpc' | record hpc'
    | forwarded hpc' | done hpc' | fetch hpc' =>
      rcases SubscribePc.eq_of_fetched hpc with hpc | hpc <;> rw [hpc] at hpc' <;> cases hpc'

end Moqt.Relay
