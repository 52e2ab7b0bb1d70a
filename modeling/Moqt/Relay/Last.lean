import Moqt.Relay.Answer
import Moqt.Relay.Relaying
import Moqt.Relay.Response

/-! What comes after PUBLISH_DONE.  A subscriber that has been told of the end of its subscription
may get nothing more from the data streams of it; each of these has its own task, which knows
nothing of the one that forwards PUBLISH_DONE. -/

namespace Moqt.Relay

open Library Wire

/-! ### Streams of a subscription -/

def Answer.isDone (a : Answer) : Bool :=
  match a.2 with
  | .publishDone _ => true
  | _ => false

/-- A stream under the alias that was opened on the connection `c`, after `answers`, belongs to the
subscription of `k`: the SUBSCRIBE went to `c`, was answered with this alias, and PUBLISH_DONE had
not been sent. -/
def Network.Belongs (n : Network) (c : ConnectionId) (answers : List Answer) (trackAlias : UInt64)
    (k : RequestId) : Prop :=
  promised n.answers k = some trackAlias ∧ n.Asks c k ∧
    ∀ a ∈ answers, a.1 = k → a.isDone = false

instance (n : Network) (c : ConnectionId) (answers : List Answer) (trackAlias : UInt64)
    (k : RequestId) : Decidable (n.Belongs c answers trackAlias k) :=
  inferInstanceAs (Decidable (_ ∧ _ ∧ ∀ a ∈ answers, a.1 = k → _))

/-- One of the streams goes to the session. -/
def Reaches (streams : List Downstream) (ws : List StreamId) (session : MoqtSession) : Prop :=
  ∃ s ∈ ws, ∃ d ∈ streams[s]?, d.session = session

instance (streams : List Downstream) (ws : List StreamId) (session : MoqtSession) :
    Decidable (Reaches streams ws session) :=
  inferInstanceAs (Decidable (∃ s ∈ ws, ∃ d ∈ streams[s]?, _))

/-- There is an object to be read. -/
def DataReader.hasNext (reader : DataReader) : Bool :=
  match reader.read.1 with
  | some (some _) => true
  | _ => false

/-- A task has still a stream to open to the session, or an object to write on one. -/
def DataStreamPc.Owing (streams : List Downstream) (session : MoqtSession)
    (activeWriters : List StreamId) (hasNext : Bool) : DataStreamPc → Prop
  | .lookup => True
  | .openStreams todo => session ∈ todo ∨ Reaches streams activeWriters session ∧ hasNext = true
  | .readObject => Reaches streams activeWriters session ∧ hasNext = true
  | .writeObject _ todo stillActive =>
    Reaches streams todo session ∨ Reaches streams stillActive session ∧ hasNext = true
  | .drain | .finish _ | .dropWriters _ | .returned => False

instance (streams : List Downstream) (session : MoqtSession) (activeWriters : List StreamId)
    (hasNext : Bool) :
    (pc : DataStreamPc) → Decidable (pc.Owing streams session activeWriters hasNext)
  | .lookup => isTrue trivial
  | .openStreams _ => inferInstanceAs (Decidable (_ ∨ _ ∧ _))
  | .readObject => inferInstanceAs (Decidable (_ ∧ _))
  | .writeObject _ _ _ => inferInstanceAs (Decidable (_ ∨ _ ∧ _))
  | .drain | .finish _ | .dropWriters _ | .returned => isFalse id

def DataStreamTask.Owing (t : DataStreamTask) (streams : List Downstream) (reader : DataReader)
    (session : MoqtSession) : Prop :=
  t.pc.Owing streams session t.activeWriters reader.hasNext

instance (t : DataStreamTask) (streams : List Downstream) (reader : DataReader)
    (session : MoqtSession) : Decidable (t.Owing streams reader session) :=
  inferInstanceAs (Decidable (t.pc.Owing _ _ _ _))

/-- The step opens a stream of the task `i` to the session, or writes an object on one, or tries
to. -/
def Sends (n : Network) (l : NetworkLabel) (i : Nat) (session : MoqtSession) : Prop :=
  ∃ t ∈ n.world.dataStreams[i]?,
    (∃ ok todo, l = .relay (.dataStream i (.opened ok)) ∧ t.pc = .openStreams (session :: todo)) ∨
      ∃ ok object s todo stillActive, l = .relay (.dataStream i (.wrote ok)) ∧
        t.pc = .writeObject object (s :: todo) stillActive ∧
        ∃ d ∈ n.world.streams[s]?, d.session = session

/-- No step sends anything for its subscription to a subscriber that PUBLISH_DONE has been forwarded
to. -/
def DoneLast (n : Network) : Prop :=
  ∀ (r : RequestId) (u : SubscribeTask) (done : Received PublishDoneMessage)
    (answer : Received SubscribeOkMessage), n.world.task r = some u →
      Response.publishDone done ∈ u.written → u.subscribeOk = some answer →
        ∀ (i : Nat) (t : DataStreamTask) (reader : DataReader), n.world.dataStreams[i]? = some t →
          n.readers[i]? = some reader →
            n.Belongs reader.connection reader.answers t.header.trackAlias answer.upstream →
              ∀ l, (network.step n l).isSome → ¬Sends n l i ⟨u.session⟩

/-- The subscriber is one of the subscription of `k`, every stream of which has been accepted, and
the tasks of these have nothing left for the subscriber. -/
structure Network.Flushed (n : Network) (k : RequestId) (u : SubscribeTask) : Prop where
  own : ∃ answer ∈ u.subscribeOk, answer.upstream = k
  accepted : ∀ c < n.links.length, ∀ link ∈ n.links[c]?, ∀ stream ∈ link.uni,
    ∀ header ∈ stream.header, ¬n.Belongs c stream.answers header.trackAlias k
  done : ∀ i < n.readers.length, ∀ t ∈ n.world.dataStreams[i]?, ∀ reader ∈ n.readers[i]?,
    n.Belongs reader.connection reader.answers t.header.trackAlias k →
      ¬t.Owing n.world.streams reader ⟨u.session⟩

instance (n : Network) (k : RequestId) (u : SubscribeTask) : Decidable (n.Flushed k u) :=
  decidable_of_iff
    ((∃ answer ∈ u.subscribeOk, answer.upstream = k) ∧
      (∀ c < n.links.length, ∀ link ∈ n.links[c]?, ∀ stream ∈ link.uni, ∀ header ∈ stream.header,
        ¬n.Belongs c stream.answers header.trackAlias k) ∧
      ∀ i < n.readers.length, ∀ t ∈ n.world.dataStreams[i]?, ∀ reader ∈ n.readers[i]?,
        n.Belongs reader.connection reader.answers t.header.trackAlias k →
          ¬t.Owing n.world.streams reader ⟨u.session⟩)
    ⟨fun ⟨own, accepted, done⟩ => ⟨own, accepted, done⟩, fun ⟨own, accepted, done⟩ =>
      ⟨own, accepted, done⟩⟩

/-- PUBLISH_DONE is forwarded to subscribers that everything has been forwarded to. -/
def EndsFlushed (n : Network) : NetworkLabel → Prop
  | .relay (.subscribe k (.responded r true)) => ∀ owner ∈ n.world.task k, owner.pc = .notify →
      ∀ u ∈ n.world.task r, n.Flushed k u
  | _ => True

instance (n : Network) : (l : NetworkLabel) → Decidable (EndsFlushed n l)
  | .relay (.subscribe k (.responded r true)) => inferInstanceAs (Decidable
      (∀ owner ∈ n.world.task k, owner.pc = .notify → ∀ u ∈ n.world.task r, n.Flushed k u))
  | .relay (.subscribe _ (.responded _ false)) | .relay (.subscribe _ .proceed)
  | .relay (.subscribe _ (.opened _)) | .relay (.subscribe _ (.wrote _))
  | .relay (.subscribe _ (.response _)) | .relay (.subscribe _ (.object _))
  | .relay (.dataStream _ _) | .relay .connect | .relay (.event _ _) | .relay (.eventError _)
  | .relay (.removeSession _) | .relay (.publishNamespace _ _) | .openBi _ _ | .openUni _ _
  | .close _ | .answer _ _ => isTrue trivial

/-! ### What is left for a subscriber -/

theorem Reaches.before {streams streams' : List Downstream} {ws : List StreamId}
    {session : MoqtSession} (h : Reaches streams' ws session) (hkept : Kept streams streams')
    (hws : ∀ s ∈ ws, s < streams.length) : Reaches streams ws session := by
  obtain ⟨s, hs, d', hd', hsession⟩ := h
  have hd := List.getElem?_eq_getElem (hws s hs)
  obtain ⟨d₁, hd₁, hsame, -⟩ := hkept s _ hd
  obtain rfl := Option.mem_unique hd' hd₁
  exact ⟨s, hs, _, hd, hsame.symm.trans hsession⟩

theorem Reaches.mono {streams : List Downstream} {ws ws' : List StreamId} {session : MoqtSession}
    (h : Reaches streams ws session) (hws : ws ⊆ ws') : Reaches streams ws' session := by
  obtain ⟨s, hs, hd⟩ := h
  exact ⟨s, hws hs, hd⟩

theorem reaches_append {streams : List Downstream} {ws ws' : List StreamId}
    {session : MoqtSession} : Reaches streams (ws ++ ws') session ↔
      Reaches streams ws session ∨ Reaches streams ws' session := by
  simp [Reaches, or_and_right, exists_or]

/-- The streams that a task writes to are there. -/
theorem Alive.lt {streams : List Downstream} {t : DataStreamTask} {reader : DataReader}
    {ws : List StreamId} (h : Alive t reader ws) (hopened : Opened streams t reader) :
    ∀ s ∈ ws, s < streams.length :=
  fun s hs => hopened.lt s ((h.mem s).mp hs).1

/-- What is left for a subscriber does not come from other tasks. -/
theorem Relaying.owing_before {streams streams' : List Downstream} {t : DataStreamTask}
    {reader : DataReader} {session : MoqtSession} (h : Relaying streams t reader)
    (hkept : Kept streams streams') (howing : t.Owing streams' reader session) :
    t.Owing streams reader session := by
  obtain ⟨-, hopened, hphase⟩ := h
  unfold DataStreamTask.Owing Phase at *
  cases hpc : t.pc with
  | lookup => trivial
  | drain | finish todo | dropWriters todo | returned =>
    rw [hpc] at howing
    exact howing
  | openStreams todo =>
    rw [hpc] at howing hphase
    refine howing.imp_right fun ⟨hreaches, hnext⟩ => ⟨hreaches.before hkept ?_, hnext⟩
    exact hphase.alive.lt hopened
  | readObject =>
    rw [hpc] at howing hphase
    exact ⟨howing.1.before hkept (hphase.alive.lt hopened), howing.2⟩
  | writeObject object todo stillActive =>
    rw [hpc] at howing hphase
    have hlt := hphase.alive.lt hopened
    refine howing.imp (fun hreaches => hreaches.before hkept fun s hs => hlt s ?_)
      fun ⟨hreaches, hnext⟩ => ⟨hreaches.before hkept fun s hs => hlt s ?_, hnext⟩
    · exact List.mem_append_right _ hs
    · exact List.mem_append_left _ hs

theorem DataReader.hasNext_opens (reader : DataReader) (opens : List Bool) :
    { reader with opens : DataReader }.hasNext = reader.hasNext := by
  have hread : { reader with opens : DataReader }.read.1 = reader.read.1 := read_congr rfl rfl
  rw [hasNext, hasNext, hread]

theorem DataReader.hasNext_failed (reader : DataReader) (failed : List StreamId) :
    { reader with failed : DataReader }.hasNext = reader.hasNext := by
  have hread : { reader with failed : DataReader }.read.1 = reader.read.1 := read_congr rfl rfl
  rw [hasNext, hasNext, hread]

/-- What is left after a step of the task was left before it. -/
theorem Advance.owing_before {w : World} {t t' : DataStreamTask} {reader reader' : DataReader}
    {input : Input} {streams' : List Downstream} {session : MoqtSession}
    (h : Advance w t reader input t' reader' streams') (hrelaying : Relaying w.streams t reader)
    (howing : t'.Owing streams' reader' session) : t.Owing w.streams reader session := by
  obtain ⟨-, hopened, hphase⟩ := hrelaying
  have htouches := h.touches hphase
  unfold DataStreamTask.Owing Phase at *
  cases h with
  | lookup hpc =>
    rw [hpc]
    trivial
  | drained hpc =>
    rw [hpc] at howing
    exact howing.elim
  | openStream hpc =>
    rw [DataReader.hasNext_opens] at howing
    rw [hpc] at hphase ⊢
    rcases howing with hmem | ⟨hreaches, hmore⟩
    · exact .inl (List.mem_cons_of_mem _ hmem)
    rcases reaches_append.mp hreaches with hreaches | ⟨s, hs, d, hd, rfl⟩
    · exact .inr ⟨hreaches.before htouches.kept (hphase.alive.lt hopened), hmore⟩
    · -- the stream has just been opened
      obtain rfl := List.mem_singleton.mp hs
      rcases Table.getElem?_concat.mp hd with hold | ⟨-, rfl⟩
      · simp at hold
      · exact .inl List.mem_cons_self
  | skipStream hpc =>
    rw [DataReader.hasNext_opens] at howing
    rw [hpc]
    exact howing.imp_left (List.mem_cons_of_mem _)
  | allOpened hpc =>
    rw [hpc]
    exact .inr howing
  | readObject hpc hread =>
    rw [hpc]
    refine ⟨howing.resolve_right fun ⟨⟨_, hnil, _⟩, _⟩ => List.not_mem_nil hnil, ?_⟩
    rw [DataReader.hasNext, hread]
  | @wroteObject object s todo stillActive hpc =>
    rw [hpc] at hphase ⊢
    have hlt := hphase.alive.lt hopened
    have before {ws : List StreamId} (hreaches : Reaches _ ws session)
        (hws : ws ⊆ stillActive ++ s :: todo) : Reaches w.streams ws session :=
      hreaches.before htouches.kept fun a ha => hlt a (hws ha)
    rcases howing with hreaches | ⟨hreaches, hmore⟩
    · exact .inl ((before hreaches (by simp)).mono (List.subset_cons_self _ _))
    rcases reaches_append.mp hreaches with hreaches | hreaches
    · exact .inr ⟨before hreaches (by simp), hmore⟩
    · exact .inl ((before hreaches (by simp)).mono (by simp))
  | lostWriter hpc =>
    rw [DataReader.hasNext_failed] at howing
    rw [hpc]
    exact howing.imp_left fun hreaches => hreaches.mono (List.subset_cons_self _ _)
  | objectWritten hpc =>
    rw [hpc]
    exact .inr howing
  | _ => exact howing.elim

/-! ### Runs -/

/-- The PUBLISH_DONE that a task has is one that was sent on its upstream request stream. -/
def DonesSent (n : Network) : Prop :=
  ∀ (k : RequestId) (owner : SubscribeTask) (done : Received PublishDoneMessage),
    n.world.task k = some owner → owner.publishDone = some done →
      (k, RequestMessage.publishDone done.message) ∈ n.answers

/-- The task has been told of the end of the subscription of `k`. -/
def Network.ToldOf (n : Network) (k : RequestId) (u : SubscribeTask) : Prop :=
  ∃ r done, n.world.task r = some u ∧ Response.publishDone done ∈ u.written ∧ done.upstream = k

/-- Subscribers that have been told of the end of a subscription are subscribers of it, and get
nothing more of it. -/
structure Quiet (n : Network) : Prop where
  received : ∀ (k : RequestId) (owner : SubscribeTask) (done : Received PublishDoneMessage),
    n.world.task k = some owner → owner.publishDone = some done →
      (k, RequestMessage.publishDone done.message) ∈ n.answers
  ended : ∀ (k : RequestId) (u : SubscribeTask), n.ToldOf k u →
    ∃ message, (k, RequestMessage.publishDone message) ∈ n.answers
  own : ∀ (k : RequestId) (u : SubscribeTask), n.ToldOf k u →
    ∃ answer, u.subscribeOk = some answer ∧ answer.upstream = k
  waiting : ∀ (k : RequestId) (u : SubscribeTask), n.ToldOf k u → ∀ (c : ConnectionId) (link : Link)
    (stream : UniStream) (header : SubgroupHeader), n.links[c]? = some link → stream ∈ link.uni →
      stream.header = some header → ¬n.Belongs c stream.answers header.trackAlias k
  tasks : ∀ (k : RequestId) (u : SubscribeTask), n.ToldOf k u → ∀ (i : Nat) (t : DataStreamTask)
    (reader : DataReader), n.world.dataStreams[i]? = some t → n.readers[i]? = some reader →
      n.Belongs reader.connection reader.answers t.header.trackAlias k →
        ¬t.Owing n.world.streams reader ⟨u.session⟩

theorem Network.not_toldOf_new {k : RequestId} {u : SubscribeTask} :
    ¬network.init.ToldOf k u := by
  rintro ⟨r, done, hu, -⟩
  exact World.not_task_new r hu

theorem Quiet.new : Quiet network.init where
  received k _ _ ho := absurd ho (World.not_task_new k)
  ended _ _ h := absurd h Network.not_toldOf_new
  own _ _ h := absurd h Network.not_toldOf_new
  waiting _ _ h := absurd h Network.not_toldOf_new
  tasks _ _ h := absurd h Network.not_toldOf_new

section Step

variable {n n' : Network} {l : NetworkLabel}

/-- A stream that belongs to a subscription after a step belonged to it before. -/
theorem Network.Belongs.before {c : ConnectionId} {answers : List Answer} {trackAlias : UInt64}
    {k : RequestId} (h : n'.Belongs c answers trackAlias k) (hanswers : Answers n)
    (hstep : NetworkStep n l n') {message : RequestMessage}
    (hanswered : (k, message) ∈ n.answers) : n.Belongs c answers trackAlias k := by
  obtain ⟨hpromised, hasks, hopen⟩ := h
  rw [promised_front hanswered hstep.answers] at hpromised
  exact ⟨hpromised, hasks.before hanswers hstep hanswered, hopen⟩

/-- Who has been told of an end has been told before, or is told in this step. -/
theorem Network.ToldOf.before {k : RequestId} {u' : SubscribeTask} (h : n'.ToldOf k u')
    (hformed : Formed n.world) (hstep : NetworkStep n l n') : ∃ u, u'.session = u.session ∧
      (∀ answer, u.subscribeOk = some answer → u'.subscribeOk = some answer) ∧
      (n.ToldOf k u ∨ ∃ r owner done, l = .relay (.subscribe k (.responded r true)) ∧
        n.world.task k = some owner ∧ owner.pc = .notify ∧ owner.publishDone = some done ∧
        n.world.task r = some u) := by
  obtain ⟨r, done, hu', hmem, rfl⟩ := h
  rcases hstep.world with ⟨l', rfl, hworld⟩ | ⟨-, hsame⟩
  · have hworld := Step.of_step hworld
    obtain ⟨u, hu, htold⟩ := hworld.writesDone hu' hmem
    have hr := hworld.task r
    rw [hu, hu'] at hr
    refine ⟨u, hr.session, fun answer hok => ?_, ?_⟩
    · obtain ⟨u₁, hu₁, hkeeps⟩ := hworld.keeps hformed hu hok
      obtain rfl := Option.mem_unique hu' hu₁
      exact hkeeps.subscribeOk.trans hok
    · rcases htold with hold | ⟨k, owner, rs, rfl, ho, hpc, hdone, -⟩
      · exact .inl ⟨r, done, hu, hold, rfl⟩
      · obtain ⟨rfl, -⟩ := (hformed k owner ho).done done hdone
        exact .inr ⟨r, owner, done, rfl, ho, hpc, hdone, hu⟩
  · rw [hsame] at hu'
    exact ⟨u', rfl, fun _ hok => hok, .inl ⟨r, done, hu', hmem, rfl⟩⟩

/-- A PUBLISH_DONE of the task's own was there, or has just been read. -/
theorem Step.ownDone {w w' : World} {l : Label} (h : Step w l w') {k : RequestId}
    {t' : SubscribeTask} {done : Received PublishDoneMessage} (ht' : w'.task k = some t')
    (hdone' : t'.publishDone = some done) : (∃ t, w.task k = some t ∧ t.publishDone = some done) ∨
      l = .subscribe k (.response (some (.publishDone done.message))) := by
  rcases h.before ht' with ⟨t, ht⟩ | ⟨session, message, rfl⟩
  · have hk := h.task k
    rw [ht, ht'] at hk
    cases hk with
    | kept hagree => exact .inl ⟨t, ht, hagree.publishDone.symm.trans hdone'⟩
    | moved hl hagree hmove =>
      rw [hagree.publishDone] at hdone'
      cases hmove with
      | done hpc done₁ hinput =>
        obtain rfl := Option.some.inj hdone'
        exact .inr (by rw [hl, hinput])
      | _ => exact .inl ⟨t, ht, hdone'⟩
  · cases hdone'

theorem DonesSent.step (h : DonesSent n) (hanswers : Answers n) (hstep : NetworkStep n l n') :
    DonesSent n' := by
  intro k owner' done ho' hdone'
  refine hstep.answers.subset ?_
  rcases hstep.world with ⟨l', rfl, hworld⟩ | ⟨-, hsame⟩
  · rcases (Step.of_step hworld).ownDone ho' hdone' with ⟨owner, ho, hdone⟩ | rfl
    · exact h k owner done ho hdone
    · cases hstep.unreadMove with
      | same hunread hsame hl => exact absurd rfl (hl _ _)
      | sent message hl => cases hl
      | read hl hfind hunread hsame =>
        cases hl
        exact hanswers.subset (List.mem_of_find?_eq_some hfind)
  · exact h k owner' done (hsame ▸ ho') hdone'

/-- Who is told in this step is a subscriber that everything has been forwarded to. -/
theorem Quiet.toldBefore (h : Quiet n) (hformed : Formed n.world) (hl : EndsFlushed n l)
    (hstep : NetworkStep n l n') {k : RequestId} {u' : SubscribeTask} (htold : n'.ToldOf k u') :
    ∃ u, u'.session = u.session ∧
      (∀ answer, u.subscribeOk = some answer → u'.subscribeOk = some answer) ∧
      (∃ message, (k, RequestMessage.publishDone message) ∈ n.answers) ∧
      (n.ToldOf k u ∨ n.Flushed k u ∧ ∃ r, l = .relay (.subscribe k (.responded r true))) := by
  obtain ⟨u, hsession, hok, htold | ⟨r, owner, done, rfl, ho, hpc, hdone, hu⟩⟩ :=
    htold.before hformed hstep
  · exact ⟨u, hsession, hok, h.ended k u htold, .inl htold⟩
  · exact ⟨u, hsession, hok, ⟨_, h.received k owner done ho hdone⟩,
      .inr ⟨hl owner ho hpc u hu, r, rfl⟩⟩

theorem Quiet.step_waiting (h : Quiet n) (hl : EndsFlushed n l) (hreachable : network.Reachable n)
    (hstep : NetworkStep n l n') {k : RequestId} {u' : SubscribeTask} (htold : n'.ToldOf k u')
    {c : ConnectionId} {link' : Link} {stream : UniStream} {header : SubgroupHeader}
    (hlink' : n'.links[c]? = some link') (hstream' : stream ∈ link'.uni)
    (hheader : stream.header = some header) :
    ¬n'.Belongs c stream.answers header.trackAlias k := by
  intro hbelongs
  have hformed := (known_of_reachable (reachable_world hreachable)).lifecycle.formed
  obtain ⟨u, -, -, ⟨message, hended⟩, htold⟩ := h.toldBefore hformed hl hstep htold
  have hbefore := hbelongs.before (answers_of_reachable hreachable) hstep hended
  rcases hstep.linkMove hlink' with ⟨link, hlink, hmove⟩ | ⟨-, -, rfl⟩
  · rcases hmove.uni stream hstream' with hold | ⟨-, hanswers⟩
    · rcases htold with htold | ⟨hflushed, -⟩
      · exact h.waiting k u htold c link stream header hlink hold hheader hbefore
      · have hc := (List.getElem?_eq_some_iff.mp hlink).1
        exact hflushed.accepted c hc link hlink stream hold header hheader hbefore
    · -- a stream that is opened now comes after the end
      have hopen := hbefore.2.2 _ (hanswers ▸ hended) rfl
      cases hopen
  · cases hstream'

theorem Quiet.step_tasks (h : Quiet n) (hl : EndsFlushed n l) (hreachable : network.Reachable n)
    (hstep : NetworkStep n l n') {k : RequestId} {u' : SubscribeTask} (htold : n'.ToldOf k u')
    {i : Nat} {t' : DataStreamTask} {reader' : DataReader}
    (ht' : n'.world.dataStreams[i]? = some t') (hreader' : n'.readers[i]? = some reader')
    (hbelongs : n'.Belongs reader'.connection reader'.answers t'.header.trackAlias k) :
    ¬t'.Owing n'.world.streams reader' ⟨u'.session⟩ := by
  intro howing
  have hformed := (known_of_reachable (reachable_world hreachable)).lifecycle.formed
  have hforwarding := forwarding_of_reachable hreachable
  obtain ⟨u, hsession, -, ⟨message, hended⟩, htold⟩ := h.toldBefore hformed hl hstep htold
  have hbefore := hbelongs.before (answers_of_reachable hreachable) hstep hended
  rw [hsession] at howing
  rcases htold with htold | ⟨hflushed, r, rfl⟩
  · have quiet := h.tasks k u htold
    cases hstep.taskOrigin hforwarding.length ht' hreader' with
    | kept ht hreader =>
      have hrelaying := hforwarding.relaying i t' reader' ht hreader
      exact quiet i t' reader' ht hreader hbefore
        (hrelaying.owing_before (hforwarding.kept hstep) howing)
    | accepted hlink hstream hconn hread ht' hreader' =>
      subst ht' hreader'
      exact h.waiting k u htold _ _ _ _ hlink hstream
        (UniStream.header_eq_some.mpr ⟨_, _, hread⟩) hbefore
    | @moved t reader input hl ht hreader hdata hmoves =>
      have hrelaying := hforwarding.relaying i t reader ht hreader
      obtain ⟨t₁, ht₁, hmove⟩ := hdata.move ht
      obtain rfl := Option.mem_unique ht' ht₁
      rw [hmoves.origin.1, hmoves.origin.2, hmove.header] at hbefore
      have hadvance := hdata.advance ht ht' hmoves
      exact quiet i t reader ht hreader hbefore (hadvance.owing_before hrelaying howing)
  · cases hstep.dataChange with
    | same hstreams hdata hreaders =>
      rw [hdata] at ht'
      rw [hreaders] at hreader'
      rw [hstreams] at howing
      have hi := (List.getElem?_eq_some_iff.mp hreader').1
      exact hflushed.done i hi t' ht' reader' hreader' hbefore howing
    | accepted hl => cases hl
    | moved hl => cases hl

theorem Quiet.step (h : Quiet n) (hl : EndsFlushed n l) (hreachable : network.Reachable n)
    (hstep : NetworkStep n l n') : Quiet n' := by
  have hformed := (known_of_reachable (reachable_world hreachable)).lifecycle.formed
  constructor
  · exact DonesSent.step h.received (answers_of_reachable hreachable) hstep
  · intro k u' htold
    obtain ⟨-, -, -, ⟨message, hended⟩, -⟩ := h.toldBefore hformed hl hstep htold
    exact ⟨message, hstep.answers.subset hended⟩
  · intro k u' htold
    obtain ⟨u, -, hok, -, htold | ⟨⟨⟨answer, hanswer, hk⟩, -, -⟩, -⟩⟩ :=
      h.toldBefore hformed hl hstep htold
    · obtain ⟨answer, hanswer, hk⟩ := h.own k u htold
      exact ⟨answer, hok answer hanswer, hk⟩
    · exact ⟨answer, hok answer hanswer, hk⟩
  · exact fun _ _ htold _ _ _ _ => h.step_waiting hl hreachable hstep htold
  · exact fun _ _ htold _ _ _ => h.step_tasks hl hreachable hstep htold

end Step

/-- Nothing is sent to a subscriber by a task that has nothing left for it. -/
theorem Sends.owing {n : Network} {l : NetworkLabel} {i : Nat} {session : MoqtSession}
    {t : DataStreamTask} (h : Sends n l i session) (ht : n.world.dataStreams[i]? = some t)
    (reader : DataReader) : t.Owing n.world.streams reader session := by
  obtain ⟨t₀, ht₀, hsends⟩ := h
  obtain rfl := Option.mem_unique ht ht₀
  unfold DataStreamTask.Owing
  rcases hsends with ⟨ok, todo, -, hpc⟩ | ⟨ok, object, s, todo, stillActive, -, hpc, hd⟩
  · rw [hpc]
    exact .inl List.mem_cons_self
  · rw [hpc]
    exact .inl ⟨s, List.mem_cons_self, hd⟩

theorem doneLast_of_endsFlushed {ls : List NetworkLabel}
    (h : network.Meets EndsFlushed network.init ls) : DoneLast (network.run network.init ls) := by
  have hquiet : Quiet (network.run network.init ls) := network.induction Quiet.new
    (fun _ _ _ hreachable hI hl hstep => hI.step hl hreachable (NetworkStep.of_step hstep)) h
  intro r u done answer hu hmem hok i t reader ht hreader hbelongs l _ hsends
  have htold : (network.run network.init ls).ToldOf done.upstream u := ⟨r, done, hu, hmem, rfl⟩
  obtain ⟨answer₁, hok₁, hk⟩ := hquiet.own _ u htold
  obtain rfl := Option.mem_unique hok hok₁
  rw [hk] at hbelongs
  exact hquiet.tasks _ u htold i t reader ht hreader hbelongs (hsends.owing ht reader)

/-- The publisher ends the subscription of the task `k`, and the end is told to the subscriber. -/
def Schedule.conclude (k : RequestId) : List NetworkLabel :=
  .answer k (.publishDone ⟨0, 0, ⟨[]⟩⟩) :: ((endTrack k).map NetworkLabel.relay ++
    [NetworkLabel.relay (.subscribe k (.responded k true))])

/-- The end of a subscription is told between the two objects of its only stream. -/
def endedWithin : List NetworkLabel :=
  relayTo { bytes := [0x10, 7, 2, 128, 0, 1, 97, 0, 1, 98], ending := .finished }
    [.object (some (some ⟨[0, 1], [97]⟩)), .wrote true, .proceed] ++ Schedule.conclude 0 ++
    [NetworkLabel.relay (.dataStream 0 (.object (some (some ⟨[0, 1], [98]⟩))))]

theorem not_doneLast_endedWithin : ¬∀ ls, DoneLast (network.run network.init ls) := by
  intro h
  have hlast := h endedWithin
  have hlate : ∃ u ∈ (network.run network.init endedWithin).world.task 0,
      ∃ t ∈ (network.run network.init endedWithin).world.dataStreams[0]?,
      ∃ reader ∈ (network.run network.init endedWithin).readers[0]?,
        u.subscribeOk = some ⟨0, ⟨7, [], []⟩⟩ ∧ Response.publishDone ⟨0, ⟨0, 0, ⟨[]⟩⟩⟩ ∈ u.written ∧
        (network.run network.init endedWithin).Belongs reader.connection reader.answers
          t.header.trackAlias 0 ∧
        (network.step (network.run network.init endedWithin)
          (.relay (.dataStream 0 (.wrote true)))).isSome ∧
        t.pc = .writeObject ⟨[0, 1], [98]⟩ [0] [] ∧
        ∃ d ∈ (network.run network.init endedWithin).world.streams[0]?,
          d.session = ⟨u.session⟩ := by decide +kernel
  generalize network.run network.init endedWithin = n at hlast hlate
  obtain ⟨u, hu, t, ht, reader, hreader, hok, hdone, hbelongs, hstep, hpc, hd⟩ := hlate
  exact hlast 0 u _ _ hu hdone hok 0 t reader ht hreader hbelongs _ hstep
    ⟨t, ht, .inr ⟨true, _, 0, [], [], rfl, hpc, hd⟩⟩

/-- The end is told when the stream has been read to its end. -/
theorem doneLast_endedBehind : DoneLast (network.run network.init
    (relayTo { bytes := [0x10, 7, 2, 128, 0, 1, 97], ending := .finished }
      [.object (some (some ⟨[0, 1], [97]⟩)), .wrote true, .proceed] ++ Schedule.conclude 0)) :=
  doneLast_of_endsFlushed (by decide +kernel)

end Moqt.Relay
