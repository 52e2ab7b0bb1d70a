import Moqt.Relay.Entry
import Moqt.Relay.Session

/-! What publishers have answered.  The SUBSCRIBE_OK that a task has read from its upstream request
is the first answer that was sent on it, and what had been sent when a data stream was opened is the
front of what has been sent since. -/

namespace Moqt.Relay

open Library Wire

/-! ### Requests -/

/-- The task has not sent an upstream SUBSCRIBE. -/
def SubscribePc.unasked : SubscribePc → Bool
  | .aggregate | .findPublisher | .openUpstream => true
  | pc => pc.early

/-- An upstream SUBSCRIBE is written once, and not before a publisher has been found. -/
theorem SubscribeStep.upstreamRequest {w w' : World} {k : RequestId} {t : SubscribeTask}
    {input : Input} (h : SubscribeStep w k t input w') (ht : w.task k = some t) {j : RequestId}
    {u u' : SubscribeTask} (hu : w.task j = some u) (hu' : w'.task j = some u') :
    u'.upstreamRequest = u.upstreamRequest ∧ (u'.pc.unasked = true → u.pc.unasked = true) ∨
      u'.upstreamRequest.isSome = true ∧ u'.pc.unasked = false := by
  by_cases hjk : j = k
  · subst hjk
    obtain rfl := Option.mem_unique ht hu
    cases h with
    | opened hpc htrack hpublisher hconn =>
      obtain rfl := Option.mem_unique (World.task_update_self _ ht) hu'
      exact .inr ⟨rfl, rfl⟩
    | @notify hpc done hdone r rs htodo ok =>
      left
      by_cases hjr : j = r
      · subst hjr
        simp [ht] at hu'
        rw [← hu']
        simp
      · simp [ht, hjr] at hu'
        rw [← hu']
        exact ⟨rfl, id⟩
    | _ =>
      left
      simp [ht] at hu'
      subst hu'
      refine ⟨by simp, ?_⟩
      simp_all [SubscribePc.unasked, SubscribePc.early]
  · left
    obtain ⟨u₁, hu₁, hagree⟩ := h.other hjk hu
    obtain rfl := Option.mem_unique hu' hu₁
    exact ⟨hagree.upstreamRequest, by rw [hagree.pc]; exact id⟩

/-- What a step makes of the upstream SUBSCRIBE of a task. -/
theorem Step.upstreamRequest {w w' : World} {l : Label} (h : Step w l w') {j : RequestId}
    {u' : SubscribeTask} (hu' : w'.task j = some u') :
    w.task j = none ∧ u'.upstreamRequest = none ∨ ∃ u, w.task j = some u ∧
      (u'.upstreamRequest = u.upstreamRequest ∧ (u'.pc.unasked = true → u.pc.unasked = true) ∨
        u'.upstreamRequest.isSome = true ∧ u'.pc.unasked = false) := by
  have hj := h.task j
  rw [hu'] at hj
  generalize ho : w.task j = o at hj
  cases hj with
  | spawned session message => exact .inl ⟨rfl, rfl⟩
  | @kept u _ hagree =>
    exact .inr ⟨u, rfl, .inl ⟨hagree.upstreamRequest, by rw [hagree.pc]; exact id⟩⟩
  | @moved u _ _ input hl hagree hmove =>
    subst hl
    cases h with
    | subscribe ht hs => exact .inr ⟨u, rfl, hs.upstreamRequest ht ho hu'⟩

/-- Before it is asked for there is no upstream SUBSCRIBE. -/
def Unasked (w : World) : Prop :=
  ∀ (j : RequestId) (t : SubscribeTask), w.task j = some t → t.pc.unasked = true →
    t.upstreamRequest = none

theorem Unasked.step {w w' : World} {l : Label} (h : Unasked w) (hstep : Step w l w') :
    Unasked w' := by
  intro j t' ht' hpc'
  rcases hstep.upstreamRequest ht' with ⟨-, hnone⟩ | ⟨t, ht, ⟨hsame, hpc⟩ | ⟨-, hpc⟩⟩
  · exact hnone
  · rw [hsame]
    exact h j t ht (hpc hpc')
  · rw [hpc] at hpc'
    cases hpc'

/-! ### Answers -/

/-- What has been sent, what has not been read of it, and what had been sent before a data stream
was opened. -/
structure Answers (n : Network) : Prop where
  unasked : Unasked n.world
  asked : ∀ a ∈ n.answers, ∃ t, n.world.task a.1 = some t ∧ t.upstreamRequest.isSome = true
  subset : n.unread ⊆ n.answers
  unread : ∀ (k : RequestId) (t : SubscribeTask), n.world.task k = some t →
    t.pc.unanswered = true → n.unread.filter (·.1 = k) = n.answers.filter (·.1 = k)
  first : ∀ (k : RequestId) (t : SubscribeTask) (ok : SubscribeOkMessage),
    n.world.task k = some t → t.subscribeOk = some ⟨k, ok⟩ →
      n.answers.find? (·.1 = k) = some (k, .subscribeOk ok)
  waiting : ∀ (c : ConnectionId) (link : Link) (stream : UniStream), n.links[c]? = some link →
    stream ∈ link.uni → stream.answers <+: n.answers
  readers : ∀ (i : Nat) (reader : DataReader), n.readers[i]? = some reader →
    reader.answers <+: n.answers

theorem Answers.new : Answers .new where
  unasked j _ ht := absurd ht (World.not_task_new j)
  asked _ ha := by cases ha
  subset := List.Subset.refl _
  unread j _ ht := absurd ht (World.not_task_new j)
  first j _ _ ht := absurd ht (World.not_task_new j)
  waiting c link stream hlink := by simp [Network.new] at hlink
  readers i reader hreader := by simp [Network.new] at hreader

/-- Answers are sent one after the other. -/
theorem NetworkStep.answers {n n' : Network} {l : NetworkLabel} (h : NetworkStep n l n') :
    n.answers <+: n'.answers := by
  cases h with
  | answer ht hsent message => exact List.prefix_append _ _
  | relay hdelivers hstep => cases hdelivers <;> exact List.prefix_refl _
  | _ => exact List.prefix_refl _

/-- What a step makes of the answers that have not been read: one more has been sent, the next one
is read, or nothing has happened to them. -/
inductive UnreadMove (n n' : Network) (l : NetworkLabel) : Prop
  | same (hunread : n'.unread = n.unread) (hanswers : n'.answers = n.answers)
      (hl : ∀ k message, l ≠ .relay (.subscribe k (.response (some message))))
  | sent {k : RequestId} {t : SubscribeTask} (message : RequestMessage)
      (hl : l = .answer k message) (ht : n.world.task k = some t)
      (hsent : t.upstreamRequest.isSome = true) (hworld : n'.world = n.world)
      (hunread : n'.unread = n.unread ++ [(k, message)])
      (hanswers : n'.answers = n.answers ++ [(k, message)])
  | read {k : RequestId} {message : RequestMessage}
      (hl : l = .relay (.subscribe k (.response (some message))))
      (hfind : n.unread.find? (·.1 = k) = some (k, message))
      (hunread : n'.unread = n.unread.erase (k, message)) (hanswers : n'.answers = n.answers)

theorem NetworkStep.unreadMove {n n' : Network} {l : NetworkLabel} (h : NetworkStep n l n') :
    UnreadMove n n' l := by
  cases h with
  | answer ht hsent message => exact .sent message rfl ht hsent rfl rfl rfl
  | relay hdelivers hstep =>
    cases hdelivers with
    | response hunread => exact .read rfl hunread rfl rfl
    | request hinput =>
      refine .same rfl rfl ?_
      rintro k message ⟨⟩
      exact hinput message rfl
    | _ => exact .same rfl rfl nofun
  | _ => exact .same rfl rfl nofun

/-- A task that reads an answer has one then, or gives up. -/
theorem Step.answered_of_response {w w' : World} {k : RequestId} {message : RequestMessage}
    (h : Step w (.subscribe k (.response (some message))) w') {t' : SubscribeTask}
    (ht' : w'.task k = some t') : t'.pc.unanswered = false := by
  cases h with
  | subscribe ht hs => cases hs <;> simp_all [SubscribePc.unanswered, SubscribePc.early,
      SubscribePc.searching] <;> subst ht' <;> rfl

theorem DataReader.Moves.origin {reader reader' : DataReader} {w : World} {t : DataStreamTask}
    {input : Input} (h : reader.Moves w t input reader') :
    reader'.connection = reader.connection ∧ reader'.answers = reader.answers := by
  cases h with
  | object =>
    unfold DataReader.read
    split <;> exact ⟨rfl, rfl⟩
  | observe =>
    unfold DataReader.observe
    split <;> exact ⟨rfl, rfl⟩

/-- A task does not go back to where it has no answer. -/
theorem Step.unanswered_before {w w' : World} {l : Label} (h : Step w l w') {k : RequestId}
    {t t' : SubscribeTask} (ht : w.task k = some t) (ht' : w'.task k = some t')
    (hpc' : t'.pc.unanswered = true) : t.pc.unanswered = true := by
  have hk := h.task k
  rw [ht, ht'] at hk
  cases hk with
  | kept hagree => rwa [hagree.pc] at hpc'
  | moved hl hagree hmove =>
    rw [hagree.pc] at hpc'
    cases hmove with
    | early hpc _ track => exact SubscribePc.unanswered_of_early hpc
    | search hpc _ publisher upstreamRequest => exact SubscribePc.unanswered_of_searching hpc
    | lock hpc | vacant hpc => rw [hpc]; rfl
    | notify hpc => exact hpc'
    | _ => cases hpc'

namespace Answers

variable {n n' : Network} {l : NetworkLabel}

theorem asked_step (h : Answers n) (hstep : NetworkStep n l n') :
    ∀ a ∈ n'.answers, ∃ t, n'.world.task a.1 = some t ∧ t.upstreamRequest.isSome = true := by
  have stays (a : Answer) (ha : a ∈ n.answers) :
      ∃ t, n'.world.task a.1 = some t ∧ t.upstreamRequest.isSome = true := by
    obtain ⟨t, ht, hsent⟩ := h.asked a ha
    rcases hstep.world with ⟨l', -, hworld⟩ | ⟨-, hsame⟩
    · have hworld := Step.of_step hworld
      obtain ⟨t', ht'⟩ := hworld.after ht
      refine ⟨t', ht', ?_⟩
      rcases hworld.upstreamRequest ht' with ⟨hnone, -⟩ | ⟨t₀, ht₀, ⟨hkept, -⟩ | ⟨hsent', -⟩⟩
      · rw [ht] at hnone
        cases hnone
      · obtain rfl := Option.mem_unique ht ht₀
        rwa [hkept]
      · exact hsent'
    · rw [hsame]
      exact ⟨t, ht, hsent⟩
  intro a ha
  cases hstep.unreadMove with
  | same hunread hanswers hl => exact stays a (hanswers ▸ ha)
  | read hl hfind hunread hanswers => exact stays a (hanswers ▸ ha)
  | sent message hl' ht hsent hworld hunread hanswers =>
    rw [hanswers] at ha
    rcases List.mem_append.mp ha with ha | ha
    · exact stays a ha
    · obtain rfl := List.mem_singleton.mp ha
      exact ⟨_, by rw [hworld, ht], hsent⟩

theorem subset_step (h : Answers n) (hstep : NetworkStep n l n') : n'.unread ⊆ n'.answers := by
  cases hstep.unreadMove with
  | same hunread hanswers hl =>
    rw [hunread, hanswers]
    exact h.subset
  | read hl hfind hunread hanswers =>
    rw [hunread, hanswers]
    exact fun a ha => h.subset (List.mem_of_mem_erase ha)
  | sent message hl' ht hsent hworld hunread hanswers =>
    rw [hunread, hanswers]
    exact List.append_subset.mpr ⟨List.subset_append_of_subset_left _ h.subset,
      List.subset_append_right _ _⟩

theorem unread_step (h : Answers n) (hstep : NetworkStep n l n') {k : RequestId}
    {t' : SubscribeTask} (ht' : n'.world.task k = some t') (hpc' : t'.pc.unanswered = true) :
    n'.unread.filter (·.1 = k) = n'.answers.filter (·.1 = k) := by
  -- nothing can have been sent to a task that was not there
  have before : n.unread.filter (·.1 = k) = n.answers.filter (·.1 = k) := by
    cases ht : n.world.task k with
    | none =>
      have absent (a : Answer) (ha : a ∈ n.answers) : ¬decide (a.1 = k) = true := by
        rw [decide_eq_true_iff]
        rintro rfl
        obtain ⟨t, ht₁, -⟩ := h.asked a ha
        rw [ht] at ht₁
        cases ht₁
      rw [List.filter_eq_nil_iff.mpr absent,
        List.filter_eq_nil_iff.mpr fun a ha => absent a (h.subset ha)]
    | some t =>
      refine h.unread k t ht ?_
      rcases hstep.world with ⟨l', -, hworld⟩ | ⟨-, hsame⟩
      · exact (Step.of_step hworld).unanswered_before ht ht' hpc'
      · rw [hsame] at ht'
        obtain rfl := Option.mem_unique ht ht'
        exact hpc'
  cases hstep.unreadMove with
  | same hunread hanswers hl => rw [hunread, hanswers, before]
  | sent message hl' ht hsent hworld hunread hanswers =>
    rw [hunread, hanswers, List.filter_append, List.filter_append, before]
  | @read j message hl hfind hunread hanswers =>
    have hne : j ≠ k := by
      rintro rfl
      rcases hstep.world with ⟨l', rfl, hworld⟩ | ⟨hother, -⟩
      · obtain rfl := NetworkLabel.relay.inj hl
        rw [(Step.of_step hworld).answered_of_response ht'] at hpc'
        cases hpc'
      · exact hother _ hl
    rw [hunread, hanswers, ← before, ← List.erase_filter]
    exact List.erase_of_not_mem (by simp [hne])

theorem first_step (h : Answers n) (hlife : Lifecycle n.world) (hstep : NetworkStep n l n')
    {k : RequestId} {t' : SubscribeTask} {ok : SubscribeOkMessage}
    (ht' : n'.world.task k = some t') (hok' : t'.subscribeOk = some ⟨k, ok⟩) :
    n'.answers.find? (·.1 = k) = some (k, .subscribeOk ok) := by
  -- what was sent first stays first
  have first (hfirst : n.answers.find? (·.1 = k) = some (k, .subscribeOk ok)) :
      n'.answers.find? (·.1 = k) = some (k, .subscribeOk ok) := by
    obtain ⟨more, hmore⟩ := hstep.answers
    rw [← hmore, List.find?_append, hfirst]
    rfl
  rcases hstep.world with ⟨l', rfl, hworld⟩ | ⟨-, hsame⟩
  · obtain ⟨t, ht, ⟨hok, -⟩ | ⟨rfl, hpc, -, -, -⟩⟩ := (Step.of_step hworld).ownOk hlife ht' hok'
    · exact first (h.first k t ok ht hok)
    · cases hstep.unreadMove with
      | same hunread hanswers hl => exact absurd rfl (hl _ _)
      | sent message hl' ht hsent hworld' hunread hanswers => cases hl'
      | @read j message hl hfind hunread hanswers =>
        obtain ⟨rfl, hmessage⟩ : k = j ∧ RequestMessage.subscribeOk ok = message := by
          simpa using hl
        rw [← hmessage] at hfind
        rw [hanswers, ← List.head?_filter, ← h.unread k t ht (by rw [hpc]; rfl),
          List.head?_filter, hfind]
  · rw [hsame] at ht'
    exact first (h.first k t' ok ht' hok')

theorem waiting_step (h : Answers n) (hstep : NetworkStep n l n') {c : ConnectionId} {link' : Link}
    {stream : UniStream} (hlink' : n'.links[c]? = some link') (hstream : stream ∈ link'.uni) :
    stream.answers <+: n'.answers := by
  rcases hstep.linkMove hlink' with ⟨link, hlink, hmove⟩ | ⟨-, -, rfl⟩
  · rcases hmove.uni stream hstream with hold | ⟨-, hnew⟩
    · exact (h.waiting c link stream hlink hold).trans hstep.answers
    · rw [hnew]
      exact hstep.answers
  · cases hstream

theorem readers_step (h : Answers n) (hstep : NetworkStep n l n') {i : Nat} {reader' : DataReader}
    (hreader' : n'.readers[i]? = some reader') : reader'.answers <+: n'.answers := by
  refine List.IsPrefix.trans ?_ hstep.answers
  cases hstep.dataChange with
  | same hstreams hdata hreaders => exact h.readers i reader' (hreaders ▸ hreader')
  | accepted hl hlink hstream hconn hread hstreams hdata hreaders =>
    rw [hreaders] at hreader'
    rcases Table.getElem?_concat.mp hreader' with hold | ⟨-, rfl⟩
    · exact h.readers i reader' hold
    · exact h.waiting _ _ _ hlink (List.mem_of_mem_head? hstream)
  | moved hl ht hreader hdata hmoves hreaders =>
    rw [hreaders] at hreader'
    obtain ⟨reader, hold, rfl⟩ := Table.getElem?_modify.mp hreader'
    split
    next heq =>
      subst heq
      rw [hmoves.origin.2]
      exact h.readers _ _ hreader
    · exact h.readers i reader hold

theorem step (h : Answers n) (hlife : Lifecycle n.world) (hstep : NetworkStep n l n') :
    Answers n' where
  unasked := by
    rcases hstep.world with ⟨l', -, hworld⟩ | ⟨-, hsame⟩
    · exact h.unasked.step (Step.of_step hworld)
    · rw [hsame]
      exact h.unasked
  asked := h.asked_step hstep
  subset := h.subset_step hstep
  unread _ _ ht' := h.unread_step hstep ht'
  first _ _ _ ht' := h.first_step hlife hstep ht'
  waiting _ _ _ hlink' := h.waiting_step hstep hlink'
  readers _ _ := h.readers_step hstep

end Answers

theorem answers_of_reachable {n : Network} (h : network.Reachable n) : Answers n := by
  refine h.induction .new fun n l n' hreachable hn hstep => hn.step ?_ (.of_step hstep)
  exact (known_of_reachable (reachable_world hreachable)).lifecycle

/-! ### Subscriptions at a publisher -/

/-- The alias of the SUBSCRIBE_OK that the request was answered with. -/
def promised (answers : List Answer) (k : RequestId) : Option UInt64 :=
  match answers.find? (·.1 = k) with
  | some (_, .subscribeOk ok) => some ok.trackAlias
  | _ => none

section Promised

variable {answers answers' : List Answer} {k : RequestId} {trackAlias : UInt64}

theorem promised_eq_some : promised answers k = some trackAlias ↔
    ∃ ok, answers.find? (·.1 = k) = some (k, .subscribeOk ok) ∧ ok.trackAlias = trackAlias := by
  constructor
  · intro h
    unfold promised at h
    split at h
    next j ok hfind =>
      have hj := List.find?_some hfind
      obtain rfl : j = k := by simpa using hj
      exact ⟨ok, hfind, Option.some.inj h⟩
    · cases h
  · rintro ⟨ok, hfind, rfl⟩
    rw [promised, hfind]

theorem mem_of_promised (h : promised answers k = some trackAlias) :
    ∃ message, (k, message) ∈ answers := by
  obtain ⟨ok, hfind, -⟩ := promised_eq_some.mp h
  exact ⟨_, List.mem_of_find?_eq_some hfind⟩

/-- What was promised stays promised. -/
theorem promised_mono (h : promised answers k = some trackAlias)
    (hanswers : answers <+: answers') : promised answers' k = some trackAlias := by
  obtain ⟨ok, hfind, halias⟩ := promised_eq_some.mp h
  obtain ⟨more, rfl⟩ := hanswers
  refine promised_eq_some.mpr ⟨ok, ?_, halias⟩
  rw [List.find?_append, hfind]
  rfl

/-- The first answer is the first one ever after. -/
theorem promised_front {message : RequestMessage} (hanswered : (k, message) ∈ answers)
    (hanswers : answers <+: answers') : promised answers' k = promised answers k := by
  obtain ⟨more, rfl⟩ := hanswers
  obtain ⟨first, hfirst⟩ : ∃ first, answers.find? (·.1 = k) = some first := by
    rw [← Option.isSome_iff_exists, List.find?_isSome]
    exact ⟨_, hanswered, decide_eq_true rfl⟩
  rw [promised, promised, List.find?_append, hfirst]
  rfl

end Promised

/-- A task that has been answered was asking the same publisher before. -/
theorem Answers.taskBefore {n n' : Network} {l : NetworkLabel} (h : Answers n)
    (hstep : NetworkStep n l n') {k : RequestId} {message : RequestMessage}
    (hanswered : (k, message) ∈ n.answers) {t' : SubscribeTask}
    (ht' : n'.world.task k = some t') : ∃ t, n.world.task k = some t ∧
      t'.publisher = t.publisher ∧ t'.session = t.session := by
  obtain ⟨t, ht, hsent⟩ := h.asked _ hanswered
  refine ⟨t, ht, ?_⟩
  rcases hstep.world with ⟨l', -, hworld⟩ | ⟨-, hsame⟩
  · have hworld := Step.of_step hworld
    have hk := hworld.task k
    rw [show n.world.task k = some t from ht, ht'] at hk
    refine ⟨?_, hk.session⟩
    cases hk with
    | kept hagree => exact hagree.publisher
    | moved hl hagree hmove =>
      subst hl
      cases hworld with
      | subscribe ht₀ hs =>
        rcases hs.publisher ht₀ ht ht' with hsame | ⟨hpc, -⟩
        · exact hsame
        · rw [h.unasked k t ht (by rw [hpc]; rfl)] at hsent
          cases hsent
  · rw [hsame] at ht'
    obtain rfl := Option.mem_unique ht ht'
    exact ⟨rfl, rfl⟩

/-- The upstream SUBSCRIBE of the task goes to the connection. -/
def Network.Asks (n : Network) (c : ConnectionId) (k : RequestId) : Prop :=
  ∃ t ∈ n.world.task k, ∃ publisher ∈ t.publisher, publisher.2.connection = c

instance (n : Network) (c : ConnectionId) (k : RequestId) : Decidable (n.Asks c k) :=
  inferInstanceAs (Decidable (∃ t ∈ n.world.task k, ∃ publisher ∈ t.publisher, _))

theorem Network.Asks.before {n n' : Network} {l : NetworkLabel} {c : ConnectionId} {k : RequestId}
    (h : n'.Asks c k) (hanswers : Answers n) (hstep : NetworkStep n l n')
    {message : RequestMessage} (hanswered : (k, message) ∈ n.answers) : n.Asks c k := by
  obtain ⟨t', ht', publisher, hpublisher, hc⟩ := h
  obtain ⟨t, ht, hsame, -⟩ := hanswers.taskBefore hstep hanswered ht'
  exact ⟨t, ht, publisher, hsame ▸ hpublisher, hc⟩

/-- The subscriber `r` has been recorded for the upstream subscription of `k`, and neither its
session nor that of the publisher has been removed. -/
def World.Subscribed (w : World) (k r : RequestId) : Prop :=
  ∃ u ∈ w.task r, u.Recorded k ∧ u.session ∈ w.state.sessions ∧
    ∃ owner ∈ w.task k, ∃ publisher ∈ owner.publisher, publisher.1 ∈ w.state.sessions

/-- A subscriber is listed under the connection that the SUBSCRIBE went to, and the alias that it
was answered with. -/
theorem World.Subscribed.lists {n : Network} {c : ConnectionId} {answers : List Answer}
    {trackAlias : UInt64} {k r : RequestId} {u : SubscribeTask} (h : n.world.Subscribed k r)
    (hreachable : network.Reachable n) (hanswers : answers <+: n.answers)
    (hpromised : promised answers k = some trackAlias) (hasks : n.Asks c k)
    (hu : n.world.task r = some u) :
    u.session ∈ n.world.state.sessions ∧ n.world.ListsUnder c trackAlias r u.session := by
  have hknown := known_of_reachable (reachable_world hreachable)
  obtain ⟨u₁, hu₁, ⟨hpc, ⟨_, ok⟩, hanswer, rfl⟩, hsession, owner, ho, publisher, hpublisher,
    hmem⟩ := h
  obtain rfl := Option.mem_unique hu hu₁
  obtain ⟨owner₁, publisher₁, ho₁, hpublisher₁, hown, hlists⟩ := hknown.listed _ _ u ok hu hpc
    hanswer
  obtain rfl := Option.mem_unique ho ho₁
  obtain rfl := Option.mem_unique hpublisher hpublisher₁
  obtain ⟨owner₂, ho₂, publisher₂, hpublisher₂, rfl⟩ := hasks
  obtain rfl := Option.mem_unique ho ho₂
  obtain rfl := Option.mem_unique hpublisher hpublisher₂
  -- the SUBSCRIBE_OK that was read is the one that was promised
  obtain ⟨ok', hfind, halias⟩ := promised_eq_some.mp (promised_mono hpromised hanswers)
  rw [(answers_of_reachable hreachable).first _ owner ok ho hown] at hfind
  obtain rfl : ok = ok' := by simpa using hfind
  rw [hknown.handles _ owner ho publisher hpublisher, ← halias]
  exact ⟨hsession, hlists hmem hsession⟩

end Moqt.Relay
