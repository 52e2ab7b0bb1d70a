import Moqt.Relay.Response
import Moqt.Relay.Upstream

/-! What a SUBSCRIBE that fails leaves behind.  The request is recorded before its SUBSCRIBE_OK is
encoded and written, and what fails from there on does not take it out again. -/

namespace Moqt.Relay

open Library Wire

/-- Some subscription lists the request `k`. -/
def World.Lists (w : World) (k : RequestId) : Prop :=
  ∃ track sub, w.state.subscriptions.lookup track = some sub ∧ k ∈ sub.subscribers.map (·.request)

/-- SUBSCRIBE_OK has been delivered to the subscriber. -/
def SubscribeTask.OkDelivered (t : SubscribeTask) : Prop :=
  ∃ answer, Response.subscribeOk answer ∈ t.written

/-- The subscription of a track without the entries of the request `k`. -/
def RelayState.withoutRequest (s : RelayState) (k : RequestId) (track : FullTrackName) :
    Option Subscription :=
  (s.subscriptions.lookup track).map fun sub =>
    { sub with subscribers := sub.subscribers.filter fun e => e.request ≠ k }

/-- Apart from the request `k` the subscriptions are as they were, but for a new one that lists no
other. -/
def KeepsOthers (k : RequestId) (w w' : World) : Prop :=
  ∀ track, w'.state.withoutRequest k track = w.state.withoutRequest k track ∨
    w.state.subscriptions.lookup track = none ∧
      ∃ sub', w'.state.withoutRequest k track = some sub' ∧ sub'.subscribers = []

/-- Handlers that have returned without having delivered SUBSCRIBE_OK are not listed, and no handler
touches the entries of another. -/
structure NoTrace (w : World) : Prop where
  unlisted : ∀ (k : RequestId) (t : SubscribeTask), w.task k = some t → t.pc = .returned →
    ¬t.OkDelivered → ¬w.Lists k
  others : ∀ (k : RequestId) (input : Input) (w' : World),
    relay.step w (.subscribe k input) = some w' → KeepsOthers k w w'

/-- A SUBSCRIBE_OK that cannot be encoded, or cannot be written, answers a request that is not
listed any more. -/
def FailsUnlisted (w : World) : Label → Prop
  | .subscribe k (.responded _ ok) => ∀ t ∈ w.task k,
      (t.pc = .forwardExisting ∨ t.pc = .forwardOk) → ∀ answer ∈ t.subscribeOk,
        (ok = false ∨ answer.message.encode.isOk = false) → ¬w.Lists k
  | _ => True

section

variable {w w' : World} {l : Label} {k : RequestId}

/-! ### The entries of others -/

theorem KeepsOthers.of_eq (h : w'.state = w.state) : KeepsOthers k w w' := by
  intro track
  rw [h]
  exact .inl rfl

theorem SubscribeStep.keepsOthers {t : SubscribeTask} {input : Input}
    (h : SubscribeStep w k t input w') (ht : w.task k = some t) (hlocks : Locks w) :
    KeepsOthers k w w' := by
  cases h with
  | @trackLock hpc track htrack hfree =>
    intro track'
    left
    show (w.state.trackLock track).withoutRequest k track' = _
    unfold RelayState.trackLock
    split <;> rfl
  | @join hpc track existing htrack hfree hexisting =>
    intro track'
    left
    show ((w.state.pushSubscriber track existing ⟨t.session, k⟩).subscriptions.lookup
      track').map _ = (w.state.subscriptions.lookup track').map _
    rw [RelayState.pushSubscriber, Map.lookup_insert_eq]
    by_cases hsame : track' = track
    · rw [if_pos hsame, hsame, hexisting]
      simp [Subscription.push]
    · rw [if_neg hsame]
  | @record hpc track publisher answer htrack hpublisher hanswer hfree =>
    have hvacant : w.state.subscriptions.lookup track = none :=
      hlocks.vacant _ _ _ ht (by rw [hpc]; rfl) htrack
    intro track'
    show ((w.state.addSubscriber track _ _ answer ⟨t.session, k⟩).subscriptions.lookup
      track').map _ = _ ∨ _ ∧ ∃ sub', ((w.state.addSubscriber track _ _ answer
        ⟨t.session, k⟩).subscriptions.lookup track').map _ = some sub' ∧ _
    rw [RelayState.addSubscriber_vacant hvacant, RelayState.pushSubscriber, Map.lookup_insert_eq]
    by_cases hsame : track' = track
    · rw [if_pos hsame, hsame]
      exact .inr ⟨hvacant, _, rfl, by simp [Subscription.push]⟩
    · rw [if_neg hsame]
      exact .inl rfl
  | _ => exact .of_eq rfl

/-! ### Who is listed -/

/-- A request is put on a list by its own handler, before its answer. -/
theorem Step.lists (h : Step w l w') (hlocks : Locks w) (hlists : w'.Lists k) :
    w.Lists k ∨ ∃ t', w'.task k = some t' ∧ t'.pc.pending = true := by
  obtain ⟨track, sub', hsub', hk⟩ := hlists
  cases h.subOrigin hlocks hsub' with
  | old hsub hheader hsublist => exact .inl ⟨track, _, hsub, (hsublist.map _).subset hk⟩
  | joined hl ht hpc htrack hsub ht' hpush =>
    rw [hpush, Subscription.push, List.map_append, List.mem_append] at hk
    rcases hk with hk | hk
    · exact .inl ⟨track, _, hsub, hk⟩
    · obtain rfl := List.mem_singleton.mp hk
      exact .inr ⟨_, ht', rfl⟩
  | recorded hl ht hpc htrack hpublisher hanswer ht' hnew =>
    rw [hnew] at hk
    obtain rfl := List.mem_singleton.mp hk
    exact .inr ⟨_, ht', rfl⟩

/-- A listed request has a SUBSCRIBE_OK, and the track of a task that records nothing. -/
theorem Lifecycle.of_lists (h : Lifecycle w) {t : SubscribeTask} (ht : w.task k = some t)
    (hlists : w.Lists k) : t.pc.recording = false ∧ ∃ answer, t.subscribeOk = some answer := by
  obtain ⟨track, sub, hsub, hk⟩ := hlists
  obtain ⟨e, he, rfl⟩ := List.mem_map.mp hk
  obtain ⟨t₀, ht₀, -, htrack, hok⟩ := h.upstreams.listed track sub hsub e he
  obtain rfl := Option.mem_unique ht ht₀
  refine ⟨?_, _, hok⟩
  by_contra hrecording
  have hvacant := h.locks.vacant _ t track ht (by simpa using hrecording) htrack
  rw [hvacant] at hsub
  cases hsub

/-- A listed request that has no answer yet is about to be told its SUBSCRIBE_OK. -/
theorem Lifecycle.forwarding_of_listed (h : Lifecycle w) {t : SubscribeTask}
    (ht : w.task k = some t) (hlists : w.Lists k) (hpending : t.pc.pending = true) :
    t.pc = .forwardExisting ∨ t.pc = .forwardOk := by
  obtain ⟨hrecording, answer, hok⟩ := h.of_lists ht hlists
  have hanswered : t.pc.unanswered ≠ true := by
    intro hunanswered
    rw [(h.formed k t ht).unanswered hunanswered] at hok
    cases hok
  generalize t.pc = pc at *
  cases pc with
  | forwardExisting => exact .inl rfl
  | forwardOk => exact .inr rfl
  | record => cases hrecording
  | awaitDone | fetchSubscribers | notify | returned => cases hpending
  | _ => exact absurd rfl hanswered

/-! ### Who has been told -/

theorem Step.okDelivered (h : Step w l w') {t t' : SubscribeTask} (ht : w.task k = some t)
    (ht' : w'.task k = some t') (hdelivered : t.OkDelivered) : t'.OkDelivered := by
  obtain ⟨answer, hmem⟩ := hdelivered
  rcases h.writes ht ht' with hsame | ⟨j, u, input, responses, -, -, -, hwritten⟩
  · exact ⟨answer, hsame ▸ hmem⟩
  · refine ⟨answer, ?_⟩
    rw [hwritten]
    exact List.mem_append_left _ hmem

/-- Without an answer, SUBSCRIBE_OK has not been delivered. -/
theorem SubscribeTask.not_okDelivered {t : SubscribeTask} (h : t.answers = 0) : ¬t.OkDelivered := by
  rintro ⟨answer, hmem⟩
  exact List.countP_eq_zero.mp h _ hmem rfl

/-- Whoever is listed, and past the answer, has been told SUBSCRIBE_OK. -/
def ListedTold (w : World) : Prop :=
  ∀ (k : RequestId) (t : SubscribeTask), w.task k = some t → w.Lists k →
    t.pc.pending = true ∨ t.OkDelivered

theorem ListedTold.new : ListedTold .new := fun k _ ht => absurd ht (World.not_task_new k)

/-- The answer that a listed request gets is its SUBSCRIBE_OK. -/
theorem Lifecycle.okDelivered_of_answered (h : Lifecycle w) {t t' : SubscribeTask}
    (hstep : Step w l w') (ht : w.task k = some t) (ht' : w'.task k = some t')
    (hlists : w.Lists k) (hpc : t.pc.pending = true) (hone : t'.answers = t.answers + 1) :
    t'.OkDelivered := by
  have hforward := h.forwarding_of_listed ht hlists hpc
  rcases hstep.writes ht ht' with hsame | ⟨j, u, input, responses, -, hu, hwrites, hwritten⟩
  · rw [SubscribeTask.answers, hsame, SubscribeTask.answers] at hone
    omega
  · rw [SubscribeTask.answers, hwritten, List.countP_append, SubscribeTask.answers] at hone
    cases hwrites with
    | nothing => simp at hone
    | done hpc' hdone htodo => simp [Response.isAnswer] at hone
    | answered hj hpc' hok =>
      rw [SubscribeTask.OkDelivered, hwritten]
      exact ⟨_, List.mem_append_right _ (List.mem_singleton_self _)⟩
    | rejected hj hpc' error =>
      subst hj
      obtain rfl := Option.mem_unique ht hu
      rcases hforward with hforward | hforward <;> simp [hforward] at hpc'

theorem ListedTold.step (htold : ListedTold w) (hlife : Lifecycle w) (hl : FailsUnlisted w l)
    (hstep : Step w l w') : ListedTold w' := by
  intro k t' ht' hlists'
  rcases hstep.lists hlife.locks hlists' with hlists | ⟨t₁, ht₁, hpc₁⟩
  · rcases hstep.answers ht' with ⟨hpc', -⟩ | ⟨t, ht, ⟨hpc, -⟩ | ⟨input, rfl, hanswer⟩⟩
    · exact .inl hpc'
    · rw [hpc]
      exact (htold k t ht hlists).imp_right (hstep.okDelivered ht ht')
    · obtain ⟨-, answer, hok⟩ := hlife.of_lists ht hlists
      cases hanswer with
      | pending _ hpc' _ => exact .inl hpc'
      | answered hpc _ hone =>
        exact .inr (hlife.okDelivered_of_answered hstep ht ht' hlists hpc hone)
      | silent hpc _ hexit =>
        -- the SUBSCRIBE_OK cannot be encoded
        have hforward := hlife.forwarding_of_listed ht hlists hpc
        have hfails : ∃ r ok, input = .responded r ok ∧ answer.message.encode.isOk = false := by
          unfold SilentExit at hexit
          rcases hforward with hpc₀ | hpc₀ <;> rw [hpc₀] at hexit <;> cases input <;>
            first | exact hexit.elim | exact ⟨_, _, rfl, hexit answer hok⟩
        obtain ⟨r, ok, rfl, hencode⟩ := hfails
        exact absurd hlists (hl t ht hforward answer hok (.inr hencode))
      | failed hpc _ hinput =>
        subst hinput
        exact absurd hlists
          (hl t ht (hlife.forwarding_of_listed ht hlists hpc) answer hok (.inl rfl))
      | after hpc _ _ _ =>
        refine .inr (hstep.okDelivered ht ht' ((htold k t ht hlists).resolve_left ?_))
        simp [hpc]
  · obtain rfl := Option.mem_unique ht' ht₁
    exact .inl hpc₁

/-- A SUBSCRIBE_OK that fails for a listed request leaves it listed. -/
theorem not_noTrace_of_not_failsUnlisted (hearly : ∀ k, NoEarlyAnswer k w) (hstep : Step w l w')
    (hl : ¬FailsUnlisted w l) : ¬NoTrace w' := by
  intro hnone
  unfold FailsUnlisted at hl
  split at hl
  next k r ok =>
    simp only [not_forall, not_not] at hl
    obtain ⟨t, ht, hforward, answer, hok, hfails, hlists⟩ := hl
    have hzero : t.answers = 0 := by
      refine hearly k t ht ?_
      rcases hforward with hpc | hpc <;> rw [hpc] <;> rfl
    -- the handler returns, and nothing else happens
    have returned (t' : SubscribeTask) (ht' : w'.task k = some t') (hpc' : t'.pc = .returned)
        (hwritten : t'.written = t.written) (hstate : w'.state = w.state) : False := by
      refine hnone.unlisted k t' ht' hpc' ?_ ?_
      · refine SubscribeTask.not_okDelivered ?_
        rw [SubscribeTask.answers, hwritten]
        exact hzero
      · rw [World.Lists, hstate]
        exact hlists
    cases hstep with
    | subscribe ht₀ hs =>
      obtain rfl := Option.mem_unique ht ht₀
      have stay (f : SubscribeTask → SubscribeTask) := World.task_update_self f ht
      cases hs with
      | silent hpc hexit => exact returned _ (stay _) rfl rfl rfl
      | @forwardLast _ hpc answer' hanswer hencode =>
        obtain rfl := Option.mem_unique hok hanswer
        have hnot : ok = false := by
          rcases hfails with hnot | hnot
          · exact hnot
          · rw [hencode] at hnot
            cases hnot
        subst hnot
        exact returned _ (World.task_update_self _ (stay _)) rfl rfl rfl
      | @forwarded hpc answer' hanswer hencode =>
        obtain rfl := Option.mem_unique hok hanswer
        simp [hencode] at hfails
      | reject hpc =>
        rcases hforward with hpc₀ | hpc₀ <;> rcases hpc with hpc | hpc <;> rw [hpc₀] at hpc <;>
          cases hpc
      | notify hpc =>
        rcases hforward with hpc₀ | hpc₀ <;> rw [hpc₀] at hpc <;> cases hpc
  · exact hl trivial

end

/-! ### Runs -/

/-- A SUBSCRIBE that fails leaves no trace in any state of a run, if and only if a SUBSCRIBE_OK that
fails in it answers a request that is not listed any more. -/
theorem noTrace_iff (ls : List Label) : (∀ ls', ls' <+: ls → NoTrace (relay.run .new ls')) ↔
    relay.Meets FailsUnlisted .new ls := by
  constructor
  · intro h
    by_contra hmeets
    obtain ⟨ls₁, l, ls₂, rfl, hsome, hnot⟩ := Machine.exists_of_not_meets hmeets
    obtain ⟨w', hstep⟩ := Option.isSome_iff_exists.mp hsome
    have hafter := h (ls₁ ++ [l]) ⟨ls₂, by simp⟩
    rw [Machine.run_append, Machine.run_cons, Machine.run_nil, Machine.next_of_step hstep] at hafter
    refine not_noTrace_of_not_failsUnlisted ?_ (.of_step hstep) hnot hafter
    exact fun k => noEarlyAnswer_of_run k ls₁
  · rintro hmeets ls' ⟨ls₂, rfl⟩
    obtain ⟨hlife, htold⟩ : Lifecycle (relay.run .new ls') ∧ ListedTold (relay.run .new ls') := by
      refine relay.invariant (I := fun w => Lifecycle w ∧ ListedTold w) ⟨.new, .new⟩ ?_
        (Machine.meets_append.mp hmeets).1
      rintro w l w' ⟨hlife, htold⟩ hl hstep
      have hstep := Step.of_step hstep
      exact ⟨hlife.step hstep, htold.step hlife hl hstep⟩
    constructor
    · intro k t ht hpc hnot hlists
      rcases htold k t ht hlists with hpending | hdelivered
      · rw [hpc] at hpending
        cases hpending
      · exact hnot hdelivered
    · intro k input w' hstep
      cases Step.of_step hstep with
      | subscribe ht hs => exact hs.keepsOthers ht hlife.locks

/-- The first subscriber of a track resets its request stream before SUBSCRIBE_OK is written. -/
def resetBeforeOk : List Label :=
  [Label.connect, .connect] ++ Schedule.announce 0 0 ⟨[[1]]⟩ ++ Schedule.ask 1 0 ⟨[[1]]⟩ [0x61] ++
    Schedule.fetchUpstream 0 7 ++ [Label.subscribe 0 (.responded 0 false)]

theorem not_noTrace_resetBeforeOk : ¬∀ ls, NoTrace (relay.run .new ls) := by
  intro h
  have hnone := h resetBeforeOk
  have hreturned : ∃ t ∈ (relay.run .new resetBeforeOk).task 0, t.pc = .returned ∧
      t.written = [] := by decide +kernel
  have hlisted : ∃ sub ∈ (relay.run .new resetBeforeOk).state.subscriptions.lookup
      ⟨⟨[[1]]⟩, "a"⟩, sub.subscribers = [⟨1, 0⟩] := by decide +kernel
  generalize relay.run .new resetBeforeOk = w at hnone hreturned hlisted
  obtain ⟨t, ht, hpc, hwritten⟩ := hreturned
  obtain ⟨sub, hsub, hsubscribers⟩ := hlisted
  refine hnone.unlisted 0 t ht hpc ?_ ⟨_, sub, hsub, ?_⟩
  · rintro ⟨answer, hmem⟩
    rw [hwritten] at hmem
    cases hmem
  · rw [hsubscribers]
    exact List.mem_singleton_self 0

end Moqt.Relay
