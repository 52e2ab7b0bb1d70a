import Moqt.Relay.Lifecycle

/-! What is written on the request stream of a SUBSCRIBE.  Its own task writes the answer, any task
that ends an upstream subscription may write a PUBLISH_DONE.  A handler that leaves by `?` before
its answer leaves the subscriber without one. -/

namespace Moqt.Relay

open Library Wire

/-! ### Writes -/

/-- What a step of the task `k` writes to the request stream of `j`. -/
inductive Writes (w : World) (k j : RequestId) (t : SubscribeTask) : Input → List Response → Prop
  | nothing (input : Input) : Writes w k j t input []
  | rejected (hj : j = k) (hpc : t.pc = .rejectFilter ∨ t.pc = .rejectNoPublisher)
      (error : RequestErrorMessage) :
    Writes w k j t (.responded k true) [.requestError error]
  | answered (hj : j = k) (hpc : t.pc = .forwardExisting ∨ t.pc = .forwardOk)
      {answer : Received SubscribeOkMessage} (hok : t.subscribeOk = some answer)
      (hencode : answer.message.encode.isOk = true) :
    Writes w k j t (.responded k true) [.subscribeOk answer]
  | done (hpc : t.pc = .notify) {done : Received PublishDoneMessage}
      (hdone : t.publishDone = some done) {rs : List RequestId} (htodo : t.subsToNotify = j :: rs) :
    Writes w k j t (.responded j true) [.publishDone done]

theorem SubscribeTask.wrote_written (t : SubscribeTask) (response : Response) (ok : Bool) :
    (t.wrote response ok).written = t.written ++ if ok then [response] else [] := by
  cases ok with
  | true => rfl
  | false => exact (List.append_nil _).symm

theorem SubscribeStep.writes {w w' : World} {k : RequestId} {t : SubscribeTask} {input : Input}
    (h : SubscribeStep w k t input w') (ht : w.task k = some t) {j : RequestId}
    {u u' : SubscribeTask} (hu : w.task j = some u) (hu' : w'.task j = some u') :
    ∃ responses, Writes w k j t input responses ∧ u'.written = u.written ++ responses := by
  have same (h : u'.written = u.written) :
      ∃ responses, Writes w k j t input responses ∧ u'.written = u.written ++ responses :=
    ⟨[], .nothing input, by rw [h, List.append_nil]⟩
  -- a write that fails writes nothing
  have wrote (response : Response) (ok : Bool) (h : u'.written = (u.wrote response ok).written)
      (hwrites : Writes w k j t (.responded j true) [response]) :
      ∃ responses, Writes w k j t (.responded j ok) responses ∧
        u'.written = u.written ++ responses := by
    rw [SubscribeTask.wrote_written] at h
    cases ok with
    | true => exact ⟨_, hwrites, h⟩
    | false => exact ⟨[], .nothing _, h⟩
  by_cases hjk : j = k
  · subst hjk
    obtain rfl := Option.mem_unique ht hu
    have stay (f : SubscribeTask → SubscribeTask) := World.task_update_self f ht
    cases h with
    | reject hpc error ok =>
      obtain rfl := Option.mem_unique (World.task_update_self _ (stay _)) hu'
      exact wrote _ ok rfl (.rejected rfl hpc error)
    | forwardLast ok hpc hanswer hencode =>
      obtain rfl := Option.mem_unique (World.task_update_self _ (stay _)) hu'
      exact wrote _ ok rfl (.answered rfl (hpc.imp_right And.left) hanswer hencode)
    | forwarded hpc hanswer hencode =>
      obtain rfl := Option.mem_unique (World.task_update_self _ (stay _)) hu'
      exact wrote _ true rfl (.answered rfl (.inr hpc) hanswer hencode)
    | @notify _ done hdone r rs htodo ok =>
      by_cases hjr : j = r
      · subst hjr
        obtain rfl := Option.mem_unique (World.task_update_self _ (stay _)) hu'
        refine wrote (.publishDone done) ok ?_ (.done ‹_› hdone htodo)
        simp only [SubscribeTask.wrote_written]
      · simp [ht, hjr] at hu'
        subst hu'
        exact same rfl
    | _ =>
      simp [ht] at hu'
      subst hu'
      exact same rfl
  · cases h with
    | @notify hpc done hdone r rs htodo ok =>
      by_cases hjr : j = r
      · subst hjr
        simp [hu, hjk] at hu'
        subst hu'
        exact wrote (.publishDone done) ok rfl (.done hpc hdone htodo)
      · simp [hjk, hjr, hu] at hu'
        subst hu'
        exact same rfl
    | _ =>
      simp [hjk, hu] at hu'
      subst hu'
      exact same rfl

/-- What a step writes to the request stream of `j`, for the relay as a whole. -/
theorem Step.writes {w w' : World} {l : Label} (h : Step w l w') {j : RequestId}
    {u u' : SubscribeTask} (hu : w.task j = some u) (hu' : w'.task j = some u') :
    u'.written = u.written ∨ ∃ k t input responses, l = .subscribe k input ∧ w.task k = some t ∧
      Writes w k j t input responses ∧ u'.written = u.written ++ responses := by
  have same (h : w'.task j = w.task j) : u'.written = u.written := by
    rw [hu, hu'] at h
    rw [Option.some.inj h]
  cases h with
  | event hconn hstatus event =>
    cases event with
    | subscribe message =>
      rcases World.task_spawn.mp hu' with hold | ⟨rfl, -⟩
      · rw [Option.mem_unique hold hu]
        exact .inl rfl
      · simp [World.task] at hu
    | _ => exact .inl (same rfl)
  | dataStream ht h =>
    rw [h.frame] at same
    exact .inl (same rfl)
  | subscribe ht h =>
    obtain ⟨responses, hwrites, hwritten⟩ := h.writes ht hu hu'
    exact .inr ⟨_, _, _, responses, rfl, ht, hwrites, hwritten⟩
  | _ => exact .inl (same rfl)

/-- Where a PUBLISH_DONE on a request stream comes from: it was there, or the task that has received
it writes it. -/
theorem Step.writesDone {w w' : World} {l : Label} (h : Step w l w') {r : RequestId}
    {t' : SubscribeTask} {done : Received PublishDoneMessage} (ht' : w'.task r = some t')
    (hmem : Response.publishDone done ∈ t'.written) : ∃ t, w.task r = some t ∧
      (Response.publishDone done ∈ t.written ∨ ∃ k owner rs, l = .subscribe k (.responded r true) ∧
        w.task k = some owner ∧ owner.pc = .notify ∧ owner.publishDone = some done ∧
        owner.subsToNotify = r :: rs) := by
  rcases h.before ht' with ⟨t, ht⟩ | ⟨session, message, rfl⟩
  · refine ⟨t, ht, ?_⟩
    rcases h.writes ht ht' with hsame | ⟨k, owner, input, responses, rfl, ho, hwrites, hwritten⟩
    · exact .inl (hsame ▸ hmem)
    · rw [hwritten, List.mem_append] at hmem
      rcases hmem with hmem | hmem
      · exact .inl hmem
      · cases hwrites with
        | nothing => cases hmem
        | rejected hr hpc error => simp at hmem
        | answered hr hpc hok => simp at hmem
        | @done hpc done' hdone rs htodo =>
          simp only [List.mem_singleton, Response.publishDone.injEq] at hmem
          subst hmem
          exact .inr ⟨k, owner, rs, rfl, ho, hpc, hdone, htodo⟩
  · cases hmem

/-- The SUBSCRIBE_OK written to a subscriber is the one that its request is answered with. -/
def OkWritten (w : World) : Prop :=
  ∀ (r : RequestId) (t : SubscribeTask) (answer : Received SubscribeOkMessage),
    w.task r = some t → Response.subscribeOk answer ∈ t.written → t.subscribeOk = some answer

theorem OkWritten.step {w w' : World} {l : Label} (h : OkWritten w) (hformed : Formed w)
    (hstep : Step w l w') : OkWritten w' := by
  intro r t' answer ht' hmem
  rcases hstep.before ht' with ⟨t, ht⟩ | ⟨session, message, rfl⟩
  · have before : t.subscribeOk = some answer := by
      rcases hstep.writes ht ht' with hsame | ⟨k, u, input, responses, -, hu, hwrites, hwritten⟩
      · rw [hsame] at hmem
        exact h r t answer ht hmem
      · rw [hwritten, List.mem_append] at hmem
        rcases hmem with hmem | hmem
        · exact h r t answer ht hmem
        · cases hwrites with
          | nothing => cases hmem
          | rejected hr hpc error => simp at hmem
          | done hpc hdone htodo => simp at hmem
          | answered hr hpc hok =>
            subst hr
            obtain rfl := Option.mem_unique ht hu
            simp only [List.mem_singleton, Response.subscribeOk.injEq] at hmem
            rw [hok, hmem]
    obtain ⟨t₁, ht₁, hkeeps⟩ := hstep.keeps hformed ht before
    obtain rfl := Option.mem_unique ht' ht₁
    exact hkeeps.subscribeOk.trans before
  · cases hmem

theorem okWritten_of_run (ls : List Label) : OkWritten (relay.run .new ls) := by
  have hboth : Formed (relay.run .new ls) ∧ OkWritten (relay.run .new ls) := by
    refine (relay.reachable_run ls).invariant (I := fun w => Formed w ∧ OkWritten w) ?_ ?_
    · exact ⟨.new, fun r t _ ht => absurd ht (World.not_task_new r)⟩
    · intro w l w' hw hstep
      have hstep := Step.of_step hstep
      exact ⟨hw.1.step hstep, hw.2.step hw.1 hstep⟩
  exact hboth.2

/-! ### Answers -/

def Response.isAnswer : Response → Bool
  | .subscribeOk _ | .requestError _ => true
  | .publishDone _ => false

/-- The answers that have been written. -/
def SubscribeTask.answers (t : SubscribeTask) : Nat := t.written.countP Response.isAnswer

/-- The answer is still to come. -/
def SubscribePc.pending : SubscribePc → Bool
  | .awaitDone | .fetchSubscribers | .notify | .returned => false
  | _ => true

/-- What a step of a task does to its own answers. -/
inductive AnswerStep (k : RequestId) (t t' : SubscribeTask) (input : Input) : Prop
  | pending (hpc : t.pc.pending = true) (hpc' : t'.pc.pending = true)
      (h : t'.answers = t.answers)
  | answered (hpc : t.pc.pending = true) (hpc' : t'.pc.pending = false)
      (h : t'.answers = t.answers + 1)
  | silent (hpc : t.pc.pending = true) (hpc' : t'.pc.pending = false) (hsilent : SilentExit t input)
  | failed (hpc : t.pc.pending = true) (hpc' : t'.pc.pending = false)
      (hinput : input = .responded k false)
  | after (hpc : t.pc.pending = false) (hpc' : t'.pc.pending = false) (hleft : t.pc ≠ .returned)
      (h : t'.answers = t.answers)

theorem SilentExit.pending {t : SubscribeTask} {input : Input} (h : SilentExit t input) :
    t.pc.pending = true := by
  unfold SilentExit at h
  split at h
  all_goals first | (simp only [*]; rfl) | cases h

/-- A task answers its own SUBSCRIBE only, and not after it has been told of the end. -/
theorem Writes.no_answer {w : World} {k j : RequestId} {t : SubscribeTask} {input : Input}
    {responses : List Response} (h : Writes w k j t input responses)
    (hother : j ≠ k ∨ t.pc = .notify) : responses.countP Response.isAnswer = 0 := by
  cases h with
  | nothing => rfl
  | done hpc hdone htodo => rfl
  | rejected hj hpc error =>
    rcases hother with hne | hnotify
    · exact absurd hj hne
    · rcases hpc with hpc | hpc <;> rw [hnotify] at hpc <;> cases hpc
  | answered hj hpc hok =>
    rcases hother with hne | hnotify
    · exact absurd hj hne
    · rcases hpc with hpc | hpc <;> rw [hnotify] at hpc <;> cases hpc

theorem SubscribeStep.answers {w w' : World} {k : RequestId} {t t' : SubscribeTask} {input : Input}
    (h : SubscribeStep w k t input w') (ht : w.task k = some t) (ht' : w'.task k = some t') :
    AnswerStep k t t' input := by
  have stay (f : SubscribeTask → SubscribeTask) := World.task_update_self f ht
  have wrote (response : Response) (ok : Bool) (hanswer : response.isAnswer = true)
      (hpc : t.pc.pending = true) (hwritten : t'.written = (t.wrote response ok).written)
      (hpc' : t'.pc.pending = false) : AnswerStep k t t' (.responded k ok) := by
    cases ok with
    | false => exact .failed hpc hpc' rfl
    | true =>
      refine .answered hpc hpc' ?_
      rw [SubscribeTask.answers, hwritten, SubscribeTask.wrote_written, List.countP_append]
      simp [SubscribeTask.answers, hanswer]
  cases h with
  | silent hpc h =>
    obtain rfl := Option.mem_unique (stay _) ht'
    exact .silent h.pending rfl h
  | reject hpc error ok =>
    obtain rfl := Option.mem_unique (World.task_update_self _ (stay _)) ht'
    refine wrote _ ok rfl ?_ rfl rfl
    rcases hpc with hpc | hpc <;> rw [hpc] <;> rfl
  | forwardLast ok hpc hanswer hencode =>
    obtain rfl := Option.mem_unique (World.task_update_self _ (stay _)) ht'
    refine wrote _ ok rfl ?_ rfl rfl
    rcases hpc with hpc | ⟨hpc, -⟩ <;> rw [hpc] <;> rfl
  | forwarded hpc hanswer hencode =>
    obtain rfl := Option.mem_unique (World.task_update_self _ (stay _)) ht'
    exact wrote _ true rfl (by rw [hpc]; rfl) rfl rfl
  | done hpc done =>
    obtain rfl := Option.mem_unique (stay _) ht'
    exact .after (by rw [hpc]; rfl) rfl (by simp [hpc]) rfl
  | notDone hpc hmessage =>
    obtain rfl := Option.mem_unique (stay _) ht'
    exact .after (by rw [hpc]; rfl) rfl (by simp [hpc]) rfl
  | fetch hpc htrack hfree =>
    obtain rfl := Option.mem_unique (stay _) ht'
    exact .after (by rw [hpc]; rfl) rfl (by simp [hpc]) rfl
  | @notify hpc done hdone r rs htodo ok =>
    have hstep : SubscribeStep w k t (.responded r ok) _ := .notify hpc hdone htodo ok
    obtain ⟨responses, hwrites, hwritten⟩ := hstep.writes ht ht ht'
    have hpc' : t'.pc = .notify := by
      rw [World.task_write, stay] at ht'
      split at ht'
      · obtain rfl := Option.some.inj ht'
        rw [SubscribeTask.wrote_pc, hpc]
      · obtain rfl := Option.some.inj ht'
        exact hpc
    refine .after (by rw [hpc]; rfl) (by rw [hpc']; rfl) (by simp [hpc]) ?_
    rw [SubscribeTask.answers, hwritten, List.countP_append, hwrites.no_answer (.inr hpc)]
    rfl
  | notified hpc htodo =>
    obtain rfl := Option.mem_unique (stay _) ht'
    exact .after (by rw [hpc]; rfl) rfl (by simp [hpc]) rfl
  | unsupported hpc hfilter =>
    obtain rfl := Option.mem_unique (stay _) ht'
    exact .pending (by rw [hpc]; rfl) rfl rfl
  | _ =>
    obtain rfl := Option.mem_unique (stay _) ht'
    exact .pending (by simp only [*]; rfl) rfl rfl

/-- An exit by `?` only returns. -/
theorem SubscribeStep.of_silentExit {w w' : World} {k : RequestId} {t : SubscribeTask}
    {input : Input} (h : SubscribeStep w k t input w') (hsilent : SilentExit t input) :
    w' = w.finish k := by
  cases h with
  | silent hpc h => rfl
  | forwardLast ok hpc hanswer hencode =>
    rcases hpc with hpc | ⟨hpc, -⟩ <;> simp [SilentExit, hpc, hanswer, hencode] at hsilent
  | reject hpc error ok => rcases hpc with hpc | hpc <;> simp [SilentExit, hpc] at hsilent
  | _ => simp_all [SilentExit]

/-- A step that is not the task's own leaves its answers alone. -/
theorem Step.answers_other {w w' : World} {l : Label} (h : Step w l w') {k : RequestId}
    (hl : ∀ input, l ≠ .subscribe k input) {t t' : SubscribeTask} (ht : w.task k = some t)
    (ht' : w'.task k = some t') : t'.pc = t.pc ∧ t'.answers = t.answers := by
  constructor
  · have hk := h.task k
    rw [ht, ht'] at hk
    cases hk with
    | kept hagree => exact hagree.pc
    | moved heq _ _ => exact absurd heq (hl _)
  · rcases h.writes ht ht' with hsame | ⟨j, u, input, responses, rfl, -, hwrites, hwritten⟩
    · rw [SubscribeTask.answers, hsame, SubscribeTask.answers]
    · have hne : k ≠ j := by
        rintro rfl
        exact hl input rfl
      rw [SubscribeTask.answers, hwritten, List.countP_append, hwrites.no_answer (.inl hne)]
      rfl

/-- The task `k` leaves by `?`. -/
def LeavesSilently (k : RequestId) (w : World) (l : Label) : Prop :=
  ∃ input t, l = .subscribe k input ∧ w.task k = some t ∧ SilentExit t input

/-- No write of the task `k` to its subscriber's request stream fails. -/
def WritesSucceed (k : RequestId) (_ : World) (l : Label) : Prop :=
  l ≠ .subscribe k (.responded k false)

instance (k : RequestId) (w : World) (l : Label) : Decidable (WritesSucceed k w l) :=
  inferInstanceAs (Decidable (_ ≠ _))

/-- A task that has left by `?` is without an answer from then on. -/
def Unanswered (k : RequestId) (w : World) : Prop :=
  ∃ t, w.task k = some t ∧ t.pc = .returned ∧ t.answers = 0

theorem Unanswered.step {k : RequestId} {w w' : World} {l : Label} (h : Unanswered k w)
    (hstep : Step w l w') : Unanswered k w' := by
  obtain ⟨t, ht, hpc, hanswers⟩ := h
  by_cases hl : ∃ input, l = .subscribe k input
  · -- a task that has returned takes no step
    obtain ⟨input, rfl⟩ := hl
    cases hstep with
    | subscribe ht₀ hs =>
      obtain rfl := Option.mem_unique ht ht₀
      obtain ⟨u, t', ht', -, -⟩ := hs.move ht
      cases hs.answers ht ht' with
      | after _ _ hleft _ => exact absurd hpc hleft
      | pending hpending | answered hpending | silent hpending | failed hpending =>
        rw [hpc] at hpending
        cases hpending
  · have hk := hstep.task k
    rw [ht] at hk
    generalize ho : w'.task k = o at hk
    cases hk with
    | moved heq _ _ => exact absurd ⟨_, heq⟩ hl
    | kept hagree =>
      obtain ⟨hpc', hanswers'⟩ := hstep.answers_other (fun input heq => hl ⟨input, heq⟩) ht ho
      exact ⟨_, ho, hpc'.trans hpc, hanswers'.trans hanswers⟩

theorem Step.answers {w w' : World} {l : Label} (h : Step w l w') {k : RequestId}
    {t' : SubscribeTask} (ht' : w'.task k = some t') :
    t'.pc.pending = true ∧ t'.answers = 0 ∨ ∃ t, w.task k = some t ∧
      (t'.pc = t.pc ∧ t'.answers = t.answers ∨
        ∃ input, l = .subscribe k input ∧ AnswerStep k t t' input) := by
  rcases h.before ht' with ⟨t, ht⟩ | ⟨session, message, rfl⟩
  · refine .inr ⟨t, ht, ?_⟩
    by_cases hl : ∃ input, l = .subscribe k input
    · obtain ⟨input, rfl⟩ := hl
      cases h with
      | subscribe ht₀ hs =>
        obtain rfl := Option.mem_unique ht ht₀
        exact .inr ⟨input, rfl, hs.answers ht ht'⟩
    · exact .inl (h.answers_other (fun input heq => hl ⟨input, heq⟩) ht ht')
  · exact .inl ⟨rfl, rfl⟩

/-- Before its answer a task has none. -/
def NoEarlyAnswer (k : RequestId) (w : World) : Prop :=
  ∀ (t : SubscribeTask), w.task k = some t → t.pc.pending = true → t.answers = 0

theorem NoEarlyAnswer.step {k : RequestId} {w w' : World} {l : Label} (h : NoEarlyAnswer k w)
    (hstep : Step w l w') : NoEarlyAnswer k w' := by
  intro t' ht' hpc'
  rcases hstep.answers ht' with ⟨-, hzero⟩ | ⟨t, ht, ⟨hpc, hsame⟩ | ⟨input, rfl, hanswer⟩⟩
  · exact hzero
  · rw [hsame]
    rw [hpc] at hpc'
    exact h t ht hpc'
  · cases hanswer with
    | pending hpc _ hsame => exact hsame.trans (h t ht hpc)
    | answered _ hnot _ | silent _ hnot _ | failed _ hnot _ | after _ hnot _ _ =>
      rw [hnot] at hpc'
      cases hpc'

/-- Past its answer a task has one. -/
def OneAnswer (k : RequestId) (w : World) : Prop :=
  ∀ (t : SubscribeTask), w.task k = some t → t.pc.pending = false → t.answers = 1

theorem OneAnswer.step {k : RequestId} {w w' : World} {l : Label} (h : OneAnswer k w)
    (hearly : NoEarlyAnswer k w) (hsilent : ¬ LeavesSilently k w l) (hwrites : WritesSucceed k w l)
    (hstep : Step w l w') : OneAnswer k w' := by
  intro t' ht' hpc'
  rcases hstep.answers ht' with ⟨hpc, -⟩ | ⟨t, ht, ⟨hpc, hsame⟩ | ⟨input, rfl, hanswer⟩⟩
  · rw [hpc] at hpc'
    cases hpc'
  · rw [hsame]
    rw [hpc] at hpc'
    exact h t ht hpc'
  · cases hanswer with
    | pending _ hpc _ =>
      rw [hpc] at hpc'
      cases hpc'
    | answered hpc _ hone => rw [hone, hearly t ht hpc]
    | silent _ _ hexit => exact absurd ⟨input, t, rfl, ht, hexit⟩ hsilent
    | failed _ _ hinput => exact absurd (by rw [hinput]) hwrites
    | after hpc _ _ hsame => exact hsame.trans (h t ht hpc)

theorem noEarlyAnswer_of_run (k : RequestId) (ls : List Label) :
    NoEarlyAnswer k (relay.run .new ls) := by
  refine (relay.reachable_run ls).invariant ?_ fun _ _ _ h hstep => h.step (.of_step hstep)
  exact fun t ht => absurd ht (World.not_task_new k)

/-- A handler that has returned, and whose writes to its subscriber have not failed, has written
exactly one answer if and only if it has not left by `?`. -/
theorem answers_eq_one_iff (k : RequestId) (ls : List Label) (t : SubscribeTask)
    (hwrites : relay.Meets (WritesSucceed k) .new ls) (ht : (relay.run .new ls).task k = some t)
    (hpc : t.pc = .returned) :
    t.answers = 1 ↔ relay.Meets (fun w l => ¬ LeavesSilently k w l) .new ls := by
  constructor
  · intro hone
    by_contra hmeets
    obtain ⟨ls₁, l, ls₂, rfl, hsome, hsilent⟩ := Machine.exists_of_not_meets hmeets
    obtain ⟨input, t₁, rfl, ht₁, hexit⟩ := Classical.not_not.mp hsilent
    obtain ⟨w', hstep⟩ := Option.isSome_iff_exists.mp hsome
    -- at its exit the task has no answer, and it does not get one later
    have hleft : Unanswered k w' := by
      have hstep := Step.of_step hstep
      cases hstep with
      | subscribe ht₀ hs =>
        obtain rfl := Option.mem_unique ht₁ ht₀
        rw [hs.of_silentExit hexit]
        exact ⟨_, World.task_update_self _ ht₁, rfl,
          noEarlyAnswer_of_run k ls₁ t₁ ht₁ hexit.pending⟩
    have hend : Unanswered k (relay.run w' ls₂) :=
      Machine.keeps (P := fun _ _ => True) (fun _ _ _ h _ hstep => h.step (.of_step hstep)) hleft
        (Machine.meets_true w' ls₂)
    rw [Machine.run_append, Machine.run_cons, Machine.next_of_step hstep] at ht
    obtain ⟨t', ht', -, hzero⟩ := hend
    obtain rfl := Option.mem_unique ht ht'
    rw [hzero] at hone
    cases hone
  · intro hmeets
    have hboth : NoEarlyAnswer k (relay.run .new ls) ∧ OneAnswer k (relay.run .new ls) := by
      refine Machine.invariant (I := fun w => NoEarlyAnswer k w ∧ OneAnswer k w) ?_ ?_
        (hmeets.and hwrites)
      · exact ⟨noEarlyAnswer_of_run k [], fun t ht => absurd ht (World.not_task_new k)⟩
      · intro w l w' hw hl hstep
        have hstep := Step.of_step hstep
        exact ⟨hw.1.step hstep, hw.2.step hw.1 hl.1 hl.2 hstep⟩
    exact hboth.2 t ht (by rw [hpc]; rfl)

/-- A SUBSCRIBE for a track name that is not UTF-8. -/
def askedWithoutUtf8 : List Label :=
  [.connect, .event 0 (.subscribe ⟨0, 0, ⟨[[1]]⟩, [0xff], []⟩), .subscribe 0 .proceed]

theorem not_answered_askedWithoutUtf8 :
    ¬∀ (k : RequestId) (ls : List Label) (t : SubscribeTask),
      relay.Meets (WritesSucceed k) .new ls → (relay.run .new ls).task k = some t →
        t.pc = .returned → t.answers = 1 := by
  intro h
  have hanswers := h 0 askedWithoutUtf8
    { session := 0, message := ⟨0, 0, ⟨[[1]]⟩, [0xff], []⟩, pc := .returned } (by decide)
    (by decide) rfl
  exact absurd hanswers (by decide)

/-- A SUBSCRIBE for a track without a publisher is rejected. -/
theorem answers_noPublisher : SubscribeTask.answers
    { session := 0, message := ⟨0, 0, ⟨[[1]]⟩, [0x61], []⟩, pc := .returned
      track := some ⟨⟨[[1]]⟩, "a"⟩, written := [.requestError World.noPublisher] } = 1 ↔
    relay.Meets (fun w l => ¬ LeavesSilently 0 w l) .new
      (.connect :: Schedule.ask 0 0 ⟨[[1]]⟩ [0x61] ++
        [Label.subscribe 0 .proceed, .subscribe 0 (.responded 0 true)]) :=
  answers_eq_one_iff 0 _ _ (by decide) (by decide) rfl

end Moqt.Relay
