import Moqt.Relay.Last
import Moqt.Relay.Lookup

/-! The Stream Count of PUBLISH_DONE.  The relay forwards it as it is: to each subscriber it is the
number of data streams that the publisher has opened for the upstream subscription.  Those of them
that were looked up before a subscriber joined are counted, and are not opened to it. -/

namespace Moqt.Relay

open Library Wire

namespace Network

variable (n : Network)

/-- The data streams that peers have opened and that have not been accepted yet. -/
def waiting : List StreamOrigin :=
  n.links.zipIdx.flatMap fun (link, c) => link.uni.map (UniStream.origin c)

/-- The data streams that have been accepted, one for each task. -/
def accepted : List StreamOrigin :=
  List.zipWith (fun t reader => ⟨reader.connection, reader.answers, some t.header.trackAlias⟩)
    n.world.dataStreams n.readers

/-- The data stream was opened for the subscription of `k`: the SUBSCRIBE went to its connection, it
had been answered with its alias, and PUBLISH_DONE had not been sent. -/
def OpenedFor (k : RequestId) (stream : StreamOrigin) : Prop :=
  n.Asks stream.connection k ∧
    (∃ trackAlias ∈ stream.trackAlias, promised stream.answers k = some trackAlias) ∧
    ∀ a ∈ stream.answers, a.1 = k → a.isDone = false

instance (k : RequestId) (stream : StreamOrigin) : Decidable (n.OpenedFor k stream) :=
  inferInstanceAs (Decidable (_ ∧ (∃ trackAlias ∈ stream.trackAlias, _) ∧
    ∀ a ∈ stream.answers, a.1 = k → _))

/-- The accepted data streams of the subscription of `k`. -/
def streamsOf (k : RequestId) : List Nat :=
  (n.accepted.zipIdx.filter fun (stream, _) => n.OpenedFor k stream).map (·.2)

/-- How many data streams the publisher has opened for the subscription of `k`. -/
def streamCount (h : History) (k : RequestId) : Nat :=
  h.uni.countP fun stream => n.OpenedFor k stream

/-- How many of them have not been accepted, or looked up, yet. -/
def toLookUp (k : RequestId) : Nat :=
  (n.waiting.countP fun stream => n.OpenedFor k stream) +
    (n.streamsOf k).countP fun i => ¬n.HasLookedUp i

/-- How many streams to the subscriber `r` the relay has opened from them. -/
def openedTo (h : History) (k r : RequestId) : Nat :=
  ((n.streamsOf k).map fun i => n.openedFrom h i r).sum

/-- How many streams to the subscriber `r` the relay has still to open from them. -/
def leftToOpen (h : History) (k r : RequestId) : Nat :=
  ((n.streamsOf k).map fun i => n.leftFrom h i r).sum

/-- The data stream has been looked up, and none is opened from it to the subscriber `r`. -/
def Misses (h : History) (i : Nat) (r : RequestId) : Prop :=
  n.HasLookedUp i ∧ n.openedFrom h i r = 0 ∧ n.leftFrom h i r = 0

instance (h : History) (i : Nat) (r : RequestId) : Decidable (n.Misses h i r) :=
  inferInstanceAs (Decidable (_ ∧ _ ∧ _))

/-- How many of them the subscriber `r` misses. -/
def missedBy (h : History) (k r : RequestId) : Nat :=
  (n.streamsOf k).countP fun i => n.Misses h i r

end Network

/-- The Stream Count forwarded to a subscriber is the number of streams that have been opened to it
for the subscription, or will be: those that are left to open, and some of the data streams that
have still to be looked up. -/
def CountsOwn (n : Network) (h : History) : Prop :=
  ∀ (r : RequestId) (u : SubscribeTask) (done : Received PublishDoneMessage),
    n.world.task r = some u → Response.publishDone done ∈ u.written →
      ∃ later ≤ n.toLookUp done.upstream, done.message.streamCount.toNat =
        n.openedTo h done.upstream r + n.leftToOpen h done.upstream r + later

/-- The Stream Count forwarded to a subscriber also counts the data streams of the subscription that
it misses: none of them was looked up while the subscriber was recorded for the subscription, and
its session and that of the publisher were there. -/
structure CountsMissed (n : Network) (h : History) : Prop where
  count : ∀ (r : RequestId) (u : SubscribeTask) (done : Received PublishDoneMessage),
    n.world.task r = some u → Response.publishDone done ∈ u.written →
      done.message.streamCount.toNat = n.openedTo h done.upstream r +
        n.leftToOpen h done.upstream r + n.toLookUp done.upstream + n.missedBy h done.upstream r
  missed : ∀ (k r : RequestId) (i : Nat), i ∈ n.streamsOf k → n.Misses h i r →
    ∃ w, h.lookups i = some w ∧ ¬w.Subscribed k r

/-- PUBLISH_DONE carries the number of data streams that the publisher has opened for the
subscription. -/
def CountsExactly (x : Network × History) : NetworkLabel → Prop
  | .answer k (.publishDone done) => done.streamCount.toNat = x.1.streamCount x.2 k
  | _ => True

instance (x : Network × History) : (l : NetworkLabel) → Decidable (CountsExactly x l)
  | .answer k (.publishDone done) =>
    inferInstanceAs (Decidable (done.streamCount.toNat = x.1.streamCount x.2 k))
  | .answer _ (.subscribeOk _) | .answer _ (.requestError _) | .answer _ (.requestOk _)
  | .answer _ (.subscribe _) | .answer _ (.publishNamespace _) | .openBi _ _ | .openUni _ _
  | .close _ | .relay _ => isTrue trivial

/-! ### What publishers have counted -/

section Counted

variable {n n' : Network} {h : History} {l : NetworkLabel}

/-- A publisher that has answered a request goes on being the one that was asked. -/
theorem Network.asks_iff (hanswers : Answers n) (hstep : NetworkStep n l n') {c : ConnectionId}
    {k : RequestId} {message : RequestMessage} (hanswered : (k, message) ∈ n.answers) :
    n'.Asks c k ↔ n.Asks c k := by
  refine ⟨fun h => h.before hanswers hstep hanswered, ?_⟩
  rintro ⟨t, ht, publisher, hpublisher, hc⟩
  have hafter : ∃ t', n'.world.task k = some t' := by
    rcases hstep.world with ⟨l', -, hworld⟩ | ⟨-, hsame⟩
    · exact (Step.of_step hworld).after ht
    · exact ⟨t, by rw [hsame]; exact ht⟩
  obtain ⟨t', ht'⟩ := hafter
  obtain ⟨t₀, ht₀, hsame, -⟩ := hanswers.taskBefore hstep hanswered ht'
  obtain rfl := Option.mem_unique ht ht₀
  exact ⟨t', ht', publisher, hsame ▸ hpublisher, hc⟩

/-- What a step notes of the data streams of peers. -/
theorem History.note_uni : (note n h l).uni = h.uni ∨
    ∃ c content, l = .openUni c content ∧
      (note n h l).uni = h.uni ++ [UniStream.origin c ⟨content, n.answers⟩] := by
  unfold note
  split
  · exact .inr ⟨_, _, rfl, rfl⟩
  · left
    unfold subscribe
    split <;> rfl
  · left
    split
    · unfold dataStream
      split <;> rfl
    · rfl
  · exact .inl rfl

/-- After PUBLISH_DONE no more streams are counted. -/
theorem Network.streamCount_step (hanswers : Answers n) (hstep : NetworkStep n l n')
    {k : RequestId} {done : PublishDoneMessage}
    (hdone : (k, RequestMessage.publishDone done) ∈ n.answers) :
    n'.streamCount (History.note n h l) k = n.streamCount h k := by
  have hsame (stream : StreamOrigin) : n'.OpenedFor k stream ↔ n.OpenedFor k stream := by
    rw [OpenedFor, OpenedFor, asks_iff hanswers hstep hdone]
  simp only [streamCount, hsame]
  rcases History.note_uni (n := n) (h := h) (l := l) with huni | ⟨c, content, -, huni⟩
  · rw [huni]
  · have hlate : ¬n.OpenedFor k (UniStream.origin c ⟨content, n.answers⟩) := by
      rintro ⟨-, -, hopen⟩
      exact absurd (hopen _ hdone rfl) (by simp [Answer.isDone])
    rw [huni, List.countP_append, List.countP_singleton, if_neg (by simpa using hlate),
      Nat.add_zero]

/-- The Stream Counts that publishers have sent are exact, and what is forwarded is one of them. -/
structure Counted (n : Network) (h : History) : Prop where
  sent : ∀ (k : RequestId) (done : PublishDoneMessage),
    (k, RequestMessage.publishDone done) ∈ n.answers →
    done.streamCount.toNat = n.streamCount h k
  received : DonesSent n
  forwarded : ∀ (r : RequestId) (u : SubscribeTask) (done : Received PublishDoneMessage),
    n.world.task r = some u → Response.publishDone done ∈ u.written →
      (done.upstream, .publishDone done.message) ∈ n.answers

theorem Counted.new : Counted .new .new where
  sent k done hdone := by cases hdone
  received k _ _ ho := absurd ho (World.not_task_new k)
  forwarded r _ _ hu := absurd hu (World.not_task_new r)

theorem Counted.step_sent (hcounted : Counted n h) (hanswers : Answers n)
    (hl : CountsExactly (n, h) l) (hstep : NetworkStep n l n') {k : RequestId}
    {done : PublishDoneMessage} (hdone : (k, RequestMessage.publishDone done) ∈ n'.answers) :
    done.streamCount.toNat = n'.streamCount (History.note n h l) k := by
  have old (hold : (k, RequestMessage.publishDone done) ∈ n.answers) :
      done.streamCount.toNat = n'.streamCount (History.note n h l) k := by
    rw [Network.streamCount_step hanswers hstep hold]
    exact hcounted.sent k done hold
  cases hstep.unreadMove with
  | same hunread hsame hl' => exact old (hsame ▸ hdone)
  | read hl' hfind hunread hsame => exact old (hsame ▸ hdone)
  | @sent j t message hl' ht hasked hworld hunread hsame =>
    rw [hsame] at hdone
    rcases List.mem_append.mp hdone with hold | hnew
    · exact old hold
    · obtain ⟨rfl, rfl⟩ := Prod.mk.inj (List.mem_singleton.mp hnew)
      subst hl'
      have hcount : done.streamCount.toNat = n.streamCount h k := hl
      rw [hcount]
      simp only [Network.streamCount, Network.OpenedFor, Network.Asks, hworld]
      rfl

theorem Counted.step (hcounted : Counted n h) (hanswers : Answers n) (hformed : Formed n.world)
    (hl : CountsExactly (n, h) l) (hstep : NetworkStep n l n') :
    Counted n' (History.note n h l) where
  sent _ _ hdone := hcounted.step_sent hanswers hl hstep hdone
  received := hcounted.received.step hanswers hstep
  forwarded r u' done hu' hmem := by
    refine hstep.answers.subset ?_
    rcases hstep.world with ⟨l', -, hworld⟩ | ⟨-, hsame⟩
    · obtain ⟨u, hu, hold | ⟨k, owner, rs, -, ho, -, hdone, -⟩⟩ :=
        (Step.of_step hworld).writesDone hu' hmem
      · exact hcounted.forwarded r u done hu hold
      · obtain ⟨rfl, -⟩ := (hformed k owner ho).done done hdone
        exact hcounted.received _ owner done ho hdone
    · exact hcounted.forwarded r u' done (hsame ▸ hu') hmem

end Counted

/-! ### No data stream is lost -/

theorem flatMap_zipIdx_modify {α β : Type} (g : α × Nat → List β) {as : List α} {i : Nat} {a : α}
    (h : as[i]? = some a) : ∃ before after, ∀ f : α → α,
      (as.modify i f).zipIdx.flatMap g = before ++ g (f a, i) ++ after := by
  obtain ⟨hi, rfl⟩ := List.getElem?_eq_some_iff.mp h
  refine ⟨(as.take i).zipIdx.flatMap g, ((as.drop (i + 1)).zipIdx (i + 1)).flatMap g, fun f => ?_⟩
  have hlength : (as.take i).length = i := by
    rw [List.length_take]
    omega
  rw [List.modify_eq_take_cons_drop hi, List.zipIdx_append, List.flatMap_append, List.zipIdx_cons,
    List.flatMap_cons, hlength, Nat.zero_add, List.append_assoc]

namespace Network

variable {n n' : Network} {l : NetworkLabel}

theorem waiting_updateLink {c : ConnectionId} {link : Link} (hlink : n.links[c]? = some link) :
    ∃ before after, n.waiting = before ++ link.uni.map (UniStream.origin c) ++ after ∧
      ∀ f : Link → Link, (n.updateLink c f).waiting =
        before ++ (f link).uni.map (UniStream.origin c) ++ after := by
  obtain ⟨before, after, hmodify⟩ := flatMap_zipIdx_modify
    (fun (link, c) => link.uni.map (UniStream.origin c)) hlink
  refine ⟨before, after, ?_, hmodify⟩
  have hid := hmodify id
  rwa [List.modify_id] at hid

theorem getElem?_accepted {i : Nat} {stream : StreamOrigin} :
    n.accepted[i]? = some stream ↔ ∃ t reader, n.world.dataStreams[i]? = some t ∧
      n.readers[i]? = some reader ∧
      ⟨reader.connection, reader.answers, some t.header.trackAlias⟩ = stream :=
  List.getElem?_zipWith_eq_some

/-- A task goes on with the data stream that it was spawned for. -/
theorem accepted_of_moved {i : Nat} {t : DataStreamTask} {reader reader' : DataReader}
    {input : Input} (ht : n.world.dataStreams[i]? = some t) (hreader : n.readers[i]? = some reader)
    (hdata : DataStreamStep n.world i t input n'.world)
    (hmoves : reader.Moves n.world t input reader')
    (hreaders : n'.readers = n.readers.modify i fun _ => reader') : n'.accepted = n.accepted := by
  refine List.ext_getElem? fun j => ?_
  by_cases hj : j = i
  · subst hj
    obtain ⟨t', ht', hmove⟩ := hdata.move ht
    obtain ⟨hconnection, hanswers⟩ := hmoves.origin
    have hreader' : n'.readers[j]? = some reader' := by
      rw [hreaders]
      exact Table.getElem?_modify.mpr ⟨reader, hreader, by simp⟩
    rw [getElem?_accepted.mpr ⟨t, reader, ht, hreader, rfl⟩,
      getElem?_accepted.mpr ⟨t', reader', ht', hreader', rfl⟩, hconnection, hanswers, hmove.header]
  · have hother : n'.readers[j]? = n.readers[j]? := by
      rw [hreaders, List.getElem?_modify_ne _ _ fun heq => hj heq.symm]
    simp only [accepted, List.getElem?_zipWith, hdata.getElem?_other hj, hother]

end Network

/-- What a step makes of the data streams of peers: one is opened, or accepted, or nothing has
happened to them. -/
inductive StreamMove (n n' : Network) (h h' : History) : Prop
  | same (huni : h'.uni = h.uni) (hwaiting : n'.waiting = n.waiting)
      (haccepted : n'.accepted = n.accepted)
  | opened {stream : StreamOrigin} (huni : h'.uni = h.uni ++ [stream])
      (hwaiting : n'.waiting.Perm (stream :: n.waiting)) (haccepted : n'.accepted = n.accepted)
  | accepted {stream : StreamOrigin} (huni : h'.uni = h.uni)
      (hwaiting : n.waiting.Perm (stream :: n'.waiting))
      (haccepted : n'.accepted = n.accepted ++ [stream])

theorem NetworkStep.streamMove {n n' : Network} {h : History} {l : NetworkLabel}
    (hstep : NetworkStep n l n') (hlength : n.readers.length = n.world.dataStreams.length) :
    StreamMove n n' h (History.note n h l) := by
  have hmoved {i : Nat} {input : Input} (hl : l = .relay (.dataStream i input)) :
      n'.accepted = n.accepted := by
    subst hl
    obtain ⟨t, reader, reader', ht, hreader, hdata, hmoves, hreaders⟩ := hstep.moved
    exact Network.accepted_of_moved ht hreader hdata hmoves hreaders
  have huni (hl : ∀ c content, l ≠ .openUni c content) : (History.note n h l).uni = h.uni := by
    rcases History.note_uni (n := n) (h := h) (l := l) with hsame | ⟨c, content, hl', -⟩
    · exact hsame
    · exact absurd hl' (hl c content)
  cases hstep with
  | openBi hlink hopen content =>
    obtain ⟨before, after, hwaiting, hmodify⟩ := Network.waiting_updateLink hlink
    exact .same (huni nofun) ((hmodify _).trans hwaiting.symm) rfl
  | close hlink hopen =>
    obtain ⟨before, after, hwaiting, hmodify⟩ := Network.waiting_updateLink hlink
    exact .same (huni nofun) ((hmodify _).trans hwaiting.symm) rfl
  | answer ht hsent message => exact .same (huni nofun) rfl rfl
  | @openUni c link hlink hopen content =>
    obtain ⟨before, after, hwaiting, hmodify⟩ := Network.waiting_updateLink hlink
    refine .opened rfl ?_ rfl
    rw [hmodify, hwaiting, List.map_append, List.map_singleton, ← List.append_assoc,
      List.append_assoc _ [_]]
    exact List.perm_middle
  | @relay l n₁ w' hdelivers hworld =>
    have huni := huni nofun
    have hworld := Step.of_step hworld
    cases hdelivers with
    | object hreader => exact .same huni rfl (hmoved rfl)
    | observe hinput ht hreader => exact .same huni rfl (hmoved rfl)
    | connect =>
      cases hworld
      refine .same huni ?_ rfl
      simp [Network.waiting, List.zipIdx_append]
    | eventError hlink herrs => cases hworld; exact .same huni rfl rfl
    | removeSession c => cases hworld; exact .same huni rfl rfl
    | publishNamespace i input => cases hworld <;> exact .same huni rfl rfl
    | response hunread =>
      cases hworld with
      | subscribe ht hs => cases hs <;> exact .same huni rfl rfl
    | request hinput =>
      cases hworld with
      | subscribe ht hs => cases hs <;> exact .same huni rfl rfl
    | @event c event link link' readers hlink haccepts =>
      obtain ⟨before, after, hwaiting, hmodify⟩ := Network.waiting_updateLink hlink
      have hwaiting' := hmodify fun _ => link'
      cases hworld with
      | event hconn hstatus event =>
        cases haccepts with
        | request hbi hread =>
          refine .same huni (hwaiting'.trans hwaiting.symm) ?_
          cases event with
          | dataStream header => exact absurd hread requestEvent_ne_dataStream
          | _ =>
            show List.zipWith _ _ (n.readers ++ []) = _
            rw [List.append_nil]
            rfl
        | @dataStream header stream uni headerBytes body huni' hread =>
          have hheader := UniStream.header_eq_some.mpr ⟨headerBytes, body, hread⟩
          refine @StreamMove.accepted _ _ _ _ (UniStream.origin c stream) huni ?_ ?_
          · rw [hwaiting, huni', List.map_cons]
            show List.Perm _ (_ :: (Network.updateLink n c _).waiting)
            rw [hwaiting', List.append_assoc, List.append_assoc, List.cons_append]
            exact List.perm_middle
          · show List.zipWith _ (n.world.dataStreams ++ [_]) (n.readers ++ [_]) = _
            rw [List.zipWith_append hlength.symm]
            simp [Network.accepted, UniStream.origin, hheader]

/-- Every data stream that a peer has opened is waiting, or has been accepted. -/
def Conserved (n : Network) (h : History) : Prop := h.uni.Perm (n.waiting ++ n.accepted)

theorem Conserved.new : Conserved .new .new := List.Perm.nil

theorem Conserved.step {n n' : Network} {h : History} {l : NetworkLabel}
    (hconserved : Conserved n h)
    (hstep : NetworkStep n l n') (hlength : n.readers.length = n.world.dataStreams.length) :
    Conserved n' (History.note n h l) := by
  unfold Conserved at hconserved ⊢
  cases hstep.streamMove hlength with
  | same huni hwaiting haccepted => rwa [huni, hwaiting, haccepted]
  | @opened stream huni hwaiting haccepted =>
    rw [huni, haccepted]
    calc (h.uni ++ [stream]).Perm (stream :: h.uni) := List.perm_append_singleton _ _
      List.Perm _ (stream :: (n.waiting ++ n.accepted)) := hconserved.cons _
      List.Perm _ (n'.waiting ++ n.accepted) := hwaiting.symm.append_right _
  | @accepted stream huni hwaiting haccepted =>
    rw [huni, haccepted]
    calc h.uni.Perm (n.waiting ++ n.accepted) := hconserved
      List.Perm _ (stream :: (n'.waiting ++ n.accepted)) := hwaiting.append_right _
      List.Perm _ (n'.waiting ++ n.accepted ++ [stream]) := (List.perm_append_singleton _ _).symm
      List.Perm _ (n'.waiting ++ (n.accepted ++ [stream])) := by rw [List.append_assoc]

/-! ### Who is found -/

/-- A subscriber that had been recorded when a data stream was looked up was found for it. -/
def FindsRecorded (n : Network) (h : History) : Prop :=
  ∀ (i : Nat) (stream : StreamOrigin) (w : World) (k r : RequestId),
    n.accepted[i]? = some stream → h.lookups i = some w → n.OpenedFor k stream →
      w.Subscribed k r → r ∈ h.found i

theorem FindsRecorded.new : FindsRecorded .new .new := by
  intro i stream w k r hstream
  cases hstream

/-- The lookup finds whom the state records. -/
theorem Network.OpenedFor.finds {n : Network} {k r : RequestId} {i : Nat} {t : DataStreamTask}
    {stream : StreamOrigin} (h : n.OpenedFor k stream) (hreachable : network.Reachable n)
    (hstream : n.accepted[i]? = some stream) (ht : n.world.dataStreams[i]? = some t)
    (hsubscribed : n.world.Subscribed k r) :
    r ∈ (n.world.state.findSubscriberEntries t.senderSession t.header.trackAlias).map
      (·.request) := by
  obtain ⟨t₁, reader, ht₁, hreader, rfl⟩ := getElem?_accepted.mp hstream
  obtain rfl := Option.mem_unique ht ht₁
  obtain ⟨hasks, ⟨trackAlias, halias, hpromised⟩, -⟩ := h
  obtain rfl := Option.some.inj halias
  obtain ⟨u, hu, -⟩ := id hsubscribed
  have hanswers := (answers_of_reachable hreachable).readers i reader hreader
  obtain ⟨hsession, track, sub, hsub, hpublisher, halias, hmem⟩ :=
    hsubscribed.lists hreachable hanswers hpromised hasks hu
  refine List.mem_map.mpr ⟨⟨u.session, r⟩, ?_, rfl⟩
  rw [sentOn_of_reachable hreachable i t reader ht hreader]
  exact RelayState.mem_findSubscriberEntries.mpr
    ⟨hsession, track, sub, hsub, hpublisher, halias, hmem⟩

theorem FindsRecorded.step {n n' : Network} {h : History} {l : NetworkLabel}
    (hfinds : FindsRecorded n h) (hnoted : Noted n h) (hattributed : Attributed n h)
    (hreachable : network.Reachable n) (hstep : NetworkStep n l n') :
    FindsRecorded n' (History.note n h l) := by
  have hanswers := answers_of_reachable hreachable
  have hlength := (forwarding_of_reachable hreachable).length
  intro i stream w k r hstream hlookup hopened hsubscribed
  have haccepted {t : DataStreamTask} (ht : n.world.dataStreams[i]? = some t) :
      n.accepted[i]? = some stream := by
    obtain ⟨hi, -⟩ := List.getElem?_eq_some_iff.mp ht
    have hreader := List.getElem?_eq_getElem (l := n.readers) (hlength ▸ hi)
    have hold := Network.getElem?_accepted.mpr ⟨t, _, ht, hreader, rfl⟩
    cases hstep.streamMove (h := h) hlength with
    | same _ _ hsame | opened _ _ hsame => rwa [hsame] at hstream
    | accepted _ _ hmore =>
      rwa [hmore, List.getElem?_append_left (List.getElem?_eq_some_iff.mp hold).1] at hstream
  -- its publisher had been asked when the data stream was opened
  have hbefore (hold : n.accepted[i]? = some stream) : n.OpenedFor k stream := by
    obtain ⟨t, reader, ht, hreader, rfl⟩ := Network.getElem?_accepted.mp hold
    obtain ⟨hasks, ⟨trackAlias, halias, hpromised⟩, hdone⟩ := hopened
    obtain ⟨message, hmem⟩ := mem_of_promised hpromised
    have hanswered := (hanswers.readers i reader hreader).subset hmem
    exact ⟨(Network.asks_iff hanswers hstep hanswered).mp hasks, ⟨_, halias, hpromised⟩, hdone⟩
  have old (hlookup : h.lookups i = some w) : r ∈ h.found i := by
    obtain ⟨t, ht, -⟩ := (hnoted i).mpr ⟨w, hlookup⟩
    exact hfinds i stream w k r (haccepted ht) hlookup (hbefore (haccepted ht)) hsubscribed
  cases hattributed.foundMove hstep with
  | same hfound _ hlookups | opened _ hfound _ hlookups | skipped _ hfound _ hlookups =>
    rw [hfound]
    exact old (hlookups ▸ hlookup)
  | @found j t t' found ht hpc ht' hpc' hentries hfound hpending hlookups =>
    rw [hlookups] at hlookup
    rw [hfound]
    by_cases hj : i = j
    · subst hj
      rw [Function.update_self] at hlookup ⊢
      obtain rfl := Option.some.inj hlookup
      rw [hentries]
      exact (hbefore (haccepted ht)).finds hreachable (haccepted ht) ht hsubscribed
    · rw [Function.update_of_ne hj] at hlookup ⊢
      exact old hlookup

/-! ### The account -/

theorem length_eq_sum {α : Type} {as : List α} {f g : α → Nat} {p q : α → Prop} [DecidablePred p]
    [DecidablePred q]
    (h : ∀ a ∈ as, f a + g a + (if p a then 1 else 0) + (if q a then 1 else 0) = 1) :
    as.length = (as.map f).sum + (as.map g).sum + (as.countP fun a => p a) +
      as.countP fun a => q a := by
  induction as with
  | nil => rfl
  | cons a as ih =>
    have hhead := h a List.mem_cons_self
    have htail := ih fun b hb => h b (List.mem_cons_of_mem a hb)
    simp only [List.length_cons, List.map_cons, List.sum_cons, List.countP_cons,
      decide_eq_true_eq]
    omega

theorem Network.length_streamsOf (n : Network) (k : RequestId) :
    (n.streamsOf k).length = n.accepted.countP fun stream => n.OpenedFor k stream := by
  rw [streamsOf, List.length_map, ← List.countP_eq_length_filter]
  conv_rhs => rw [← List.zipIdx_map_fst 0 n.accepted, List.countP_map]
  rfl

theorem Network.mem_streamsOf {n : Network} {k : RequestId} {i : Nat} :
    i ∈ n.streamsOf k ↔ ∃ stream, n.accepted[i]? = some stream ∧ n.OpenedFor k stream := by
  simp [streamsOf, List.mem_zipIdx_iff_getElem?]

/-- The data streams of a subscription are those from which a stream to a subscriber has been opened
or will be, those that have not been looked up, and those that it misses. -/
theorem Apportioned.account {n : Network} {h : History} (happortioned : Apportioned n h)
    (hattributed : Attributed n h) (hconserved : Conserved n h) (k r : RequestId) :
    n.streamCount h k =
      n.openedTo h k r + n.leftToOpen h k r + n.toLookUp k + n.missedBy h k r := by
  have hstreams : (n.streamsOf k).length = n.openedTo h k r + n.leftToOpen h k r +
      ((n.streamsOf k).countP fun i => ¬n.HasLookedUp i) + n.missedBy h k r := by
    refine length_eq_sum fun i _ => ?_
    have hcount := happortioned.count i r
    rw [← hattributed.openedFrom, ← hattributed.leftFrom] at hcount
    have hatMost := List.nodup_iff_count_le_one.mp (happortioned.nodup i) r
    by_cases hlooked : n.HasLookedUp i
    · by_cases hmisses : n.Misses h i r
      · simp [hlooked, hmisses, hmisses.2.1, hmisses.2.2]
      · have hone : ¬(n.openedFrom h i r = 0 ∧ n.leftFrom h i r = 0) :=
          fun hnone => hmisses ⟨hlooked, hnone⟩
        simp only [hlooked, hmisses, not_true, if_false]
        omega
    · have hnot : ¬n.Misses h i r := fun hmisses => hlooked hmisses.1
      rw [happortioned.fresh i hlooked, List.count_nil] at hcount
      simp only [hlooked, hnot, not_false_eq_true, if_true, if_false]
      omega
  have hcount : n.streamCount h k =
      (n.waiting.countP fun stream => n.OpenedFor k stream) + (n.streamsOf k).length := by
    rw [Network.streamCount, hconserved.countP_eq, List.countP_append, n.length_streamsOf]
  rw [hcount, hstreams, Network.toLookUp]
  omega

/-- What a subscriber misses it was not found for. -/
theorem Apportioned.not_found {n : Network} {h : History} (happortioned : Apportioned n h)
    (hattributed : Attributed n h) {i : Nat} {r : RequestId} (hmisses : n.Misses h i r) :
    r ∉ h.found i := by
  rw [← List.count_eq_zero, happortioned.count, ← hattributed.openedFrom, ← hattributed.leftFrom,
    hmisses.2.1, hmisses.2.2]

/-- What the account rests on. -/
structure Balanced (n : Network) (h : History) : Prop where
  counted : Counted n h
  conserved : Conserved n h
  apportioned : Apportioned n h
  noted : Noted n h
  finds : FindsRecorded n h

/-- The Stream Count forwarded to a subscriber counts the data streams of the subscription that have
been opened to it, or will be, and those that it has missed. -/
theorem countsMissed_of_countsExactly {ls : List NetworkLabel}
    (hexact : recorded.Meets CountsExactly recorded.init ls)
    (hopens : recorded.Meets Opens recorded.init ls) :
    CountsMissed (recorded.run recorded.init ls).1 (recorded.run recorded.init ls).2 := by
  have hbalanced :
      Balanced (recorded.run recorded.init ls).1 (recorded.run recorded.init ls).2 := by
    refine Machine.induction (I := fun x => Balanced x.1 x.2)
      ⟨.new, .new, .new, .new, .new⟩ ?_ (hexact.and hopens)
    rintro x l x' hreachable hx ⟨hexact, hopens⟩ hstep
    obtain ⟨hstep, hnote⟩ := recorded_step hstep
    have hnetwork := hreachable.of_withHistory
    have hlife := (known_of_reachable (reachable_world hnetwork)).lifecycle
    have hattributed := attributed_of_reachable hreachable
    rw [hnote]
    exact {
      counted := hx.counted.step (answers_of_reachable hnetwork) hlife.formed hexact hstep
      conserved := hx.conserved.step hstep (forwarding_of_reachable hnetwork).length
      apportioned := hx.apportioned.step hattributed hlife hopens hstep
      noted := hx.noted.step hattributed hstep
      finds := hx.finds.step hx.noted hattributed hnetwork hstep }
  have hattributed := attributed_of_reachable (recorded.reachable_run ls)
  obtain ⟨hcounted, hconserved, happortioned, hnoted, hfinds⟩ := hbalanced
  constructor
  · intro r u done hu hmem
    rw [hcounted.sent _ _ (hcounted.forwarded r u done hu hmem)]
    exact happortioned.account hattributed hconserved done.upstream r
  · intro k r i hi hmisses
    obtain ⟨stream, hstream, hopened⟩ := Network.mem_streamsOf.mp hi
    obtain ⟨w, hw⟩ := (hnoted i).mp hmisses.1
    refine ⟨w, hw, fun hsubscribed => ?_⟩
    exact happortioned.not_found hattributed hmisses
      (hfinds i stream w k r hstream hw hopened hsubscribed)

/-- A data stream has been relayed to a subscriber, when another one joins; then there is a second
one, which is relayed to both, and the publisher ends the subscription with the Stream Count 2. -/
def joinedAfterFirst : List NetworkLabel :=
  relayTo ⟨[0x10, 7, 2, 128, 0, 1, 97], .finished, Schedule.oneObject_fits⟩
    [.object (some (some ⟨[0, 1], [97]⟩)), .wrote true, .proceed] ++
    [NetworkLabel.relay .connect] ++ Schedule.request 2 1 ++
    [NetworkLabel.relay (.subscribe 1 (.responded 1 true))] ++
    [NetworkLabel.openUni 0 { bytes := [0x10, 7, 3, 128], ending := .finished },
      .relay (.event 0 (.dataStream ⟨7, 3, false, false, none, some 128⟩))] ++
    ([.proceed, .opened true, .opened true] : List Input).map
      (fun input => NetworkLabel.relay (.dataStream 1 input)) ++
    [NetworkLabel.answer 0 (.publishDone ⟨0, 2, ⟨[]⟩⟩),
      .relay (.subscribe 0 (.response (some (.publishDone ⟨0, 2, ⟨[]⟩⟩)))),
      .relay (.subscribe 0 .proceed), .relay (.subscribe 0 (.responded 0 true)),
      .relay (.subscribe 0 (.responded 1 true))]

theorem not_countsOwn_joinedAfterFirst :
    ¬∀ ls, recorded.Meets CountsExactly recorded.init ls → recorded.Meets Opens recorded.init ls →
      CountsOwn (recorded.run recorded.init ls).1 (recorded.run recorded.init ls).2 := by
  intro h
  have hown := h joinedAfterFirst (by decide +kernel) (by decide +kernel)
  have htold : ∃ u ∈ (recorded.run recorded.init joinedAfterFirst).1.world.task 1,
      Response.publishDone ⟨0, ⟨0, 2, ⟨[]⟩⟩⟩ ∈ u.written := by decide +kernel
  have hopened : (recorded.run recorded.init joinedAfterFirst).1.openedTo
      (recorded.run recorded.init joinedAfterFirst).2 0 1 = 1 ∧
      (recorded.run recorded.init joinedAfterFirst).1.leftToOpen
      (recorded.run recorded.init joinedAfterFirst).2 0 1 = 0 ∧
      (recorded.run recorded.init joinedAfterFirst).1.toLookUp 0 = 0 := by decide +kernel
  generalize recorded.run recorded.init joinedAfterFirst = x at hown htold hopened
  obtain ⟨u, hu, hmem⟩ := htold
  obtain ⟨hone, hleft, hlookUp⟩ := hopened
  obtain ⟨later, hlater, hcount⟩ := hown 1 u _ hu hmem
  rw [hlookUp, Nat.le_zero] at hlater
  rw [hone, hleft, hlater] at hcount
  exact absurd hcount (by decide)

theorem countsMissed_joinedAfterFirst :
    CountsMissed (recorded.run recorded.init joinedAfterFirst).1
      (recorded.run recorded.init joinedAfterFirst).2 :=
  countsMissed_of_countsExactly (by decide +kernel) (by decide +kernel)

end Moqt.Relay
