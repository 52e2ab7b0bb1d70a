import Moqt.Relay.Step

/-! What the failure of one subscriber's request stream does to the others.  Two runs are compared
that differ in nothing but the outcome of the writes to that stream.  The world without what has
been written there is the same in both, up to the point where the subscriber's own task waits for
its SUBSCRIBE_OK to be written as the owner of an upstream subscription. -/

namespace Moqt.Relay

open Library Wire

/-! ### The world without one request stream -/

def SubscribeTask.erased (t : SubscribeTask) : SubscribeTask :=
  { t with written := [], failedWrite := false }

/-- The change of a task has nothing to do with what has been written. -/
structure Blind (f : SubscribeTask → SubscribeTask) : Prop where
  erased : ∀ t, (f t).erased = f t.erased

namespace World

variable (w : World) (a k : RequestId)

/-- The world without what has been written to the request stream of `a`. -/
def erase : World := w.update a SubscribeTask.erased

@[simp] theorem erase_state : (w.erase a).state = w.state := rfl

@[simp] theorem erase_stateGuard : (w.erase a).stateGuard = w.stateGuard := rfl

@[simp] theorem erase_connections : (w.erase a).connections = w.connections := rfl

@[simp] theorem erase_publishNamespaces :
    (w.erase a).publishNamespaces = w.publishNamespaces := rfl

@[simp] theorem erase_dataStreams : (w.erase a).dataStreams = w.dataStreams := rfl

@[simp] theorem erase_setState (s : RelayState) :
    (w.setState s).erase a = (w.erase a).setState s := rfl

@[simp] theorem erase_setStateGuard (guard : Option RequestId) :
    (w.setStateGuard guard).erase a = (w.erase a).setStateGuard guard := rfl

@[simp] theorem erase_setTrackGuard (guard : FullTrackName → Option RequestId) :
    (w.setTrackGuard guard).erase a = (w.erase a).setTrackGuard guard := rfl

@[simp] theorem erase_dropTrackGuard :
    (w.dropTrackGuard k).erase a = (w.erase a).dropTrackGuard k := rfl

@[simp] theorem erase_allocateRequestId (c : ConnectionId) :
    (w.allocateRequestId c).erase a = (w.erase a).allocateRequestId c := rfl

theorem update_update (f g : SubscribeTask → SubscribeTask) :
    (w.update k f).update k g = w.update k fun t => g (f t) := by
  simp [update, List.modify_modify_eq, Function.comp_def]

theorem erase_update (f : SubscribeTask → SubscribeTask) (hf : Blind f) :
    (w.update k f).erase a = (w.erase a).update k f := by
  by_cases hak : a = k
  · subst hak
    simp only [erase, update_update, hf.erased]
  · simp only [erase, update]
    rw [List.modify_modify_ne _ _ _ (Ne.symm hak)]

@[simp] theorem erase_goto (pc : SubscribePc) :
    (w.goto k pc).erase a = (w.erase a).goto k pc :=
  erase_update w a k _ ⟨fun _ => rfl⟩

@[simp] theorem erase_finish : (w.finish k).erase a = (w.erase a).finish k :=
  erase_goto _ a k .returned

@[simp] theorem erase_erase : (w.erase a).erase a = w.erase a := by
  simp only [erase, update_update]
  rfl

/-- Of a write to the request stream of `a`, nothing is left. -/
@[simp] theorem erase_write (r : RequestId) (response : Response) (ok : Bool) :
    (w.write r response ok).erase a =
      if r = a then w.erase a else (w.erase a).write r response ok := by
  split
  · subst r
    rw [erase, write, update_update]
    congr 1
    funext t
    cases ok <;> rfl
  · simp only [erase, write, update]
    rw [List.modify_modify_ne _ _ _ ‹_›]

theorem task_erase (j : RequestId) :
    (w.erase a).task j = (w.task j).map fun t => if j = a then t.erased else t := by
  rw [erase, task_update]
  split
  · rfl
  · exact Option.map_id'.symm

/-- What the functions read of a task is the same without what has been written. -/
theorem exists_task_erase {t : SubscribeTask} (ht : w.task k = some t) :
    ∃ t', (w.erase a).task k = some t' ∧ t'.session = t.session ∧ t'.message = t.message ∧
      t'.pc = t.pc ∧ t'.track = t.track ∧ t'.publisher = t.publisher ∧
      t'.upstreamRequest = t.upstreamRequest ∧ t'.subscribeOk = t.subscribeOk ∧
      t'.publishDone = t.publishDone ∧ t'.subsToNotify = t.subsToNotify := by
  refine ⟨_, by rw [task_erase, ht]; rfl, ?_⟩
  split <;> exact ⟨rfl, rfl, rfl, rfl, rfl, rfl, rfl, rfl, rfl⟩

/-- A step of `handle_subscribe` does the same without what has been written. -/
theorem subscribe_erase (input : Input) :
    ((w.erase a).subscribe k input).map (fun v => v.erase a) =
      (w.subscribe k input).map (fun v => v.erase a) := by
  cases ht : w.task k with
  | none =>
    have ht' : (w.erase a).task k = none := by rw [task_erase, ht]; rfl
    simp [World.subscribe, ht, ht']
  | some t =>
    obtain ⟨t', ht', hsession, hmessage, hpc, htrack, hpublisher, hrequest, hok, hdone, htodo⟩ :=
      exists_task_erase w a k ht
    simp only [World.subscribe, ht, ht', hpc, hsession, hmessage, htrack, hpublisher, hrequest, hok,
      hdone, htodo, Option.bind_eq_bind, Option.bind_some]
    split
    case h_1 =>
      split
      · simp
      · split <;> simp (disch := exact ⟨fun _ => rfl⟩) [erase_update]
    case h_5 =>
      simp only [Option.map_bind, Function.comp_def, erase_state, erase_stateGuard]
      refine Option.bind_congr fun track _ => Option.bind_congr fun _ _ => ?_
      split <;> simp (disch := exact ⟨fun _ => rfl⟩) [erase_update]
    case h_7 =>
      simp only [Option.map_bind, Function.comp_def, erase_state, erase_stateGuard]
      refine Option.bind_congr fun _ _ => ?_
      split <;> simp (disch := exact ⟨fun _ => rfl⟩) [erase_update]
    case h_11 | h_14 =>
      split <;> simp (disch := exact ⟨fun _ => rfl⟩) [erase_update]
    case h_9 =>
      simp only [Option.map_bind, Function.comp_def, erase_connections]
      refine Option.bind_congr fun track _ => Option.bind_congr fun publisher _ => ?_
      refine Option.bind_congr fun conn _ => ?_
      split <;> simp (disch := exact ⟨fun _ => rfl⟩) [erase_update]
    all_goals
      simp (disch := exact ⟨fun _ => rfl⟩) [Option.map_bind,
        apply_ite (Option.map (fun v => erase v a)), erase_update]
    all_goals rfl

/-- A new task has written nothing. -/
@[simp] theorem erase_spawn (id : SessionId) (event : SessionEvent) :
    (w.spawn id event).erase a = (w.erase a).spawn id event := by
  cases event with
  | subscribe message =>
    simp only [erase, spawn, update]
    congr 1
    refine List.ext_getElem? fun j => ?_
    simp only [List.getElem?_modify, List.getElem?_append, List.length_modify]
    by_cases hj : j < w.subscribes.length
    · simp only [if_pos hj]
    · simp only [if_neg hj, List.getElem?_singleton]
      by_cases haj : a = j <;> by_cases hlast : j - w.subscribes.length = 0 <;>
        simp [haj, hlast, SubscribeTask.erased]
  | publishNamespace message => rfl
  | dataStream header => rfl

theorem dataStream_erase (i : Nat) (input : Input) :
    (w.erase a).dataStream i input = (w.dataStream i input).map (fun v => v.erase a) := by
  simp only [World.dataStream, Option.bind_eq_bind, Option.map_bind, Function.comp_def,
    erase_dataStreams]
  refine Option.bind_congr fun t _ => ?_
  split
  case h_1 => simp only [Option.map_bind]; rfl
  case h_4 ok _ => cases ok <;> rfl
  case h_9 ok _ => cases ok <;> rfl
  case h_11 ok _ => cases ok <;> rfl
  case h_13 ok _ => cases ok <;> rfl
  all_goals rfl

theorem publishNamespace_erase (i : Nat) (input : Input) :
    (w.erase a).publishNamespace i input =
      (w.publishNamespace i input).map (fun v => v.erase a) := by
  simp only [World.publishNamespace, Option.bind_eq_bind, Option.map_bind, Function.comp_def,
    erase_publishNamespaces]
  refine Option.bind_congr fun t _ => ?_
  split
  · simp only [Option.map_bind]
    rfl
  · rfl
  · rfl

/-- A step does the same without what has been written to the request stream of `a`. -/
theorem step_erase (l : Label) :
    ((w.erase a).step l).map (fun v => v.erase a) = (w.step l).map (fun v => v.erase a) := by
  cases l with
  | connect =>
    have hconnect : (w.erase a).connect.erase a = w.connect.erase a := erase_erase w.connect a
    by_cases hfree : w.stateGuard = none
    · have hfree' : (w.erase a).stateGuard = none := hfree
      simp only [step, if_pos hfree, if_pos hfree', Option.map_some, hconnect]
    · have hfree' : (w.erase a).stateGuard ≠ none := hfree
      simp only [step, if_neg hfree, if_neg hfree', Option.map_none]
  | event c event =>
    simp [step, World.event, Option.map_bind]
  | eventError c =>
    simp only [step, World.eventError, Option.bind_eq_bind, Option.map_bind, Function.comp_def,
      erase_connections]
    exact Option.bind_congr fun _ _ => Option.bind_congr fun _ _ =>
      congrArg some (erase_erase (w.setStatus c .leaving) a)
  | removeSession c =>
    simp only [step, World.removeSession, Option.bind_eq_bind, Option.map_bind, Function.comp_def,
      erase_connections, erase_state, erase_stateGuard]
    exact Option.bind_congr fun _ _ => Option.bind_congr fun _ _ =>
      congrArg some (erase_erase ((w.setState _).setStatus c .closed) a)
  | publishNamespace i input =>
    simp only [step, publishNamespace_erase, Option.map_map, Function.comp_def, erase_erase]
  | subscribe k input => exact w.subscribe_erase a k input
  | dataStream i input =>
    simp only [step, dataStream_erase, Option.map_map, Function.comp_def, erase_erase]

variable {w a} in
theorem erase_next {w' : World} {l l' : Label} (hw : w.erase a = w'.erase a)
    (h : (w.step l).map (fun v => v.erase a) = (w'.step l').map (fun v => v.erase a)) :
    (relay.next w l).erase a = (relay.next w' l').erase a := by
  show ((w.step l).getD w).erase a = ((w'.step l').getD w').erase a
  cases hstep : w.step l with
  | none =>
    rw [hstep] at h
    rw [Option.map_eq_none_iff.mp h.symm]
    exact hw
  | some v =>
    rw [hstep] at h
    obtain ⟨v', hv', heq⟩ := Option.map_eq_some_iff.mp h.symm
    rw [hv']
    exact heq.symm

theorem next_erase (l : Label) :
    (relay.next (w.erase a) l).erase a = (relay.next w l).erase a :=
  erase_next (w.erase_erase a) (w.step_erase a l)

end World

/-! ### Two runs -/

/-- The label without the outcome of a write to the request stream of `a`. -/
def Label.forget (a : RequestId) : Label → Label
  | .subscribe k (.responded r ok) => .subscribe k (.responded r (ok || decide (r = a)))
  | l => l

theorem Label.eq_or_of_forget_eq {a : RequestId} {l l' : Label} (h : l.forget a = l'.forget a) :
    l = l' ∨ ∃ k ok ok',
      l = .subscribe k (.responded a ok) ∧ l' = .subscribe k (.responded a ok') := by
  unfold Label.forget at h
  split at h <;> split at h
  next k r ok _ k' r' ok' =>
    injection h with hk hinput
    injection hinput with hr hok
    subst hk hr
    by_cases hra : r = a
    · subst hra
      exact .inr ⟨k, ok, ok', rfl, rfl⟩
    · simp only [hra, decide_false, Bool.or_false] at hok
      exact .inl (by rw [hok])
  next k r ok _ hother =>
    exact absurd h.symm (hother k r _)
  next hother _ k r ok =>
    exact absurd h (hother k r _)
  next => exact .inl h

/-- The step is the write of a SUBSCRIBE_OK by the task of `a`, which owns the upstream
subscription, and returns if the write fails. -/
def OwnerAnswers (a : RequestId) (w : World) : Label → Prop
  | .subscribe k (.responded r _) => k = a ∧ r = a ∧
      ∃ t ∈ w.task a, t.pc = .forwardOk ∧ ∃ ok ∈ t.subscribeOk, ok.message.encode.isOk
  | _ => False

/-- The owner of an upstream subscription is not told in one run that its SUBSCRIBE_OK was written,
and in the other that it was not. -/
def AnswersAlike (a : RequestId) (w _ : World) (l l' : Label) : Prop := OwnerAnswers a w l → l = l'

instance (a : RequestId) (w : World) (l : Label) : Decidable (OwnerAnswers a w l) :=
  match l with
  | .subscribe k (.responded r _) => inferInstanceAs (Decidable (k = a ∧ r = a ∧
      ∃ t ∈ w.task a, t.pc = .forwardOk ∧ ∃ ok ∈ t.subscribeOk, ok.message.encode.isOk))
  | .subscribe _ .proceed | .subscribe _ (.opened _) | .subscribe _ (.wrote _)
  | .subscribe _ (.response _) | .subscribe _ (.object _) | .connect | .event _ _ | .eventError _
  | .removeSession _ | .publishNamespace _ _ | .dataStream _ _ => isFalse id

instance (a : RequestId) (w w' : World) (l l' : Label) : Decidable (AnswersAlike a w w' l l') :=
  inferInstanceAs (Decidable (OwnerAnswers a w l → l = l'))

/-- Whether a write to the request stream of `a` has failed makes no difference outside that stream,
unless it was the owner's SUBSCRIBE_OK. -/
theorem World.subscribe_responded {w : World} {a k : RequestId} {ok ok' : Bool}
    (h : ¬OwnerAnswers a w (.subscribe k (.responded a ok))) :
    (w.subscribe k (.responded a ok)).map (fun v => v.erase a) =
      (w.subscribe k (.responded a ok')).map (fun v => v.erase a) := by
  cases ht : w.task k with
  | none => simp [World.subscribe, ht]
  | some t =>
    simp only [World.subscribe, ht, Option.bind_eq_bind, Option.bind_some]
    by_cases hak : a = k
    · subst hak
      cases hpc : t.pc with
      | rejectFilter | rejectNoPublisher => simp
      | forwardExisting =>
        simp only [guard_true, Option.map_bind, Option.pure_def, Option.bind_some]
        refine Option.bind_congr fun answer _ => ?_
        simp only [Function.comp_def]
        split <;> simp
      | forwardOk =>
        simp only [guard_true, Option.map_bind, Option.pure_def, Option.bind_some]
        refine Option.bind_congr fun answer hanswer => ?_
        have hencode : ¬answer.message.encode.isOk := fun hencode =>
          h ⟨rfl, rfl, t, ht, hpc, answer, hanswer, hencode⟩
        simp only [Function.comp_def, if_neg hencode]
      | notify => simp [Option.map_bind]
      | _ => rfl
    · cases hpc : t.pc with
      | notify => simp [Option.map_bind]
      | rejectFilter | rejectNoPublisher | forwardExisting | forwardOk => simp [hak]
      | _ => rfl

theorem World.next_alike {w w' : World} {a : RequestId} {l l' : Label}
    (hw : w.erase a = w'.erase a) (hl : l.forget a = l'.forget a)
    (halike : AnswersAlike a w w' l l') :
    (relay.next w l).erase a = (relay.next w' l').erase a := by
  have hlabel : (relay.next w l).erase a = (relay.next w l').erase a := by
    rcases Label.eq_or_of_forget_eq hl with rfl | ⟨k, ok, ok', rfl, rfl⟩
    · rfl
    · by_cases hanswers : OwnerAnswers a w (.subscribe k (.responded a ok))
      · rw [halike hanswers]
      · exact erase_next rfl (subscribe_responded hanswers)
  calc (relay.next w l).erase a
      = (relay.next (w.erase a) l').erase a := hlabel.trans (w.next_erase a l').symm
    _ = (relay.next w' l').erase a := by rw [hw, next_erase]

/-- `b` was sent a SUBSCRIBE_OK of the upstream subscription that answers the request of `a`. -/
def SharesUpstream (w : World) (a b : RequestId) : Prop :=
  ∃ ta ∈ w.task a, ∃ own ∈ ta.subscribeOk, ∃ tb ∈ w.task b,
    ∃ answer, Response.subscribeOk answer ∈ tb.written ∧ answer.upstream = own.upstream

/-- The subscribers that share an upstream subscription with `a` are told the same in both
worlds. -/
def ToldAlike (a : RequestId) (w w' : World) : Prop :=
  ∀ b ≠ a, SharesUpstream w a b ∨ SharesUpstream w' a b →
    (w.task b).map (·.written) = (w'.task b).map (·.written)

theorem ToldAlike.of_erase {a : RequestId} {w w' : World} (h : w.erase a = w'.erase a) :
    ToldAlike a w w' := by
  intro b hb _
  have htask : (w.erase a).task b = (w'.erase a).task b := by rw [h]
  simp only [World.task_erase, if_neg hb, Option.map_id'] at htask
  rw [htask]

/-- Two runs that differ in nothing but the outcomes of the writes to the request stream of `a`
tell the other subscribers the same, if the owner's SUBSCRIBE_OK is not among these writes. -/
theorem toldAlike_of_answersAlike (a : RequestId) (ls ls' : List Label)
    (hsame : ls.map (Label.forget a) = ls'.map (Label.forget a))
    (h : relay.Meets₂ (AnswersAlike a) .new .new ls ls') :
    ToldAlike a (relay.run .new ls) (relay.run .new ls') := by
  have hlabels : List.Forall₂ (fun l l' => l.forget a = l'.forget a) ls ls' := by
    rwa [← List.forall₂_eq_eq_eq, List.forall₂_map_left_iff, List.forall₂_map_right_iff] at hsame
  have hboth := h.and hlabels
  refine .of_erase (Machine.related (R := fun w w' => w.erase a = w'.erase a) ?_ rfl hboth)
  intro w w' l l' hw hll
  exact World.next_alike hw hll.2 hll.1

/-- A publisher ends a track with two subscribers.  The outcomes are those of the writes of the
SUBSCRIBE_OK and of the PUBLISH_DONE to the first one, whose task owns the subscription. -/
def ownerTold (answered done : Bool) : List Label :=
  [Label.connect, .connect, .connect] ++ Schedule.announce 0 0 ⟨[[1]]⟩ ++
    Schedule.ask 1 0 ⟨[[1]]⟩ [0x61] ++ Schedule.fetchUpstream 0 7 ++
    Schedule.ask 2 1 ⟨[[1]]⟩ [0x61] ++ [Label.subscribe 1 (.responded 1 true)] ++
    [Label.subscribe 0 (.responded 0 answered)] ++ Schedule.endTrack 0 ++
    [Label.subscribe 0 (.responded 0 done), .subscribe 0 (.responded 1 true)]

set_option maxRecDepth 4096 in
theorem not_toldAlike_ownerTold : ¬∀ a ls ls', ls.map (Label.forget a) = ls'.map (Label.forget a) →
    ToldAlike a (relay.run .new ls) (relay.run .new ls') := by
  intro h
  have hown : ((relay.run .new (ownerTold true true)).task 0).bind (·.subscribeOk) =
      some ⟨0, ⟨7, [], []⟩⟩ := by decide
  have hwritten : ((relay.run .new (ownerTold true true)).task 1).map (·.written) =
      some [.subscribeOk ⟨0, ⟨7, [], []⟩⟩, .publishDone ⟨0, ⟨0, 0, ⟨[]⟩⟩⟩] := by decide
  -- in the second run nobody reads the PUBLISH_DONE
  have hfailed : ((relay.run .new (ownerTold false true)).task 1).map (·.written) =
      some [.subscribeOk ⟨0, ⟨7, [], []⟩⟩] := by decide
  obtain ⟨ta, hta, hok⟩ := Option.bind_eq_some_iff.mp hown
  obtain ⟨tb, htb, hmessages⟩ := Option.map_eq_some_iff.mp hwritten
  have hshares : SharesUpstream (relay.run .new (ownerTold true true)) 0 1 :=
    ⟨ta, hta, _, hok, tb, htb, _, by rw [hmessages]; exact List.mem_cons_self, rfl⟩
  have htold := h 0 (ownerTold true true) (ownerTold false true) (by decide) 1 (by decide)
    (.inl hshares)
  rw [hwritten, hfailed] at htold
  exact absurd htold (by decide)

set_option maxRecDepth 4096 in
theorem toldAlike_ownerTold : ToldAlike 0 (relay.run .new (ownerTold true true))
    (relay.run .new (ownerTold true false)) :=
  toldAlike_of_answersAlike 0 _ _ (by decide) (by decide)

end Moqt.Relay
