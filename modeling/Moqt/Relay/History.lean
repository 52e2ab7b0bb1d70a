import Moqt.Library.History
import Moqt.Relay.Answer
import Moqt.Relay.Reading

/-! What a run of the network has done, and for whom.  The lookup by alias returns sessions, and a
session may have subscribed more than once; the history says for which of its SUBSCRIBEs, and from
which data stream, a stream to it was opened.  It also keeps the data streams that publishers have
opened, and what had been received of a track when a subscriber was recorded. -/

namespace Moqt.Relay

open Library Wire

/-! ### Subscribers and what they find -/

/-- The entries whose sessions `find_subscriber_sessions` returns. -/
def RelayState.findSubscriberEntries (s : RelayState) (publisherSession : SessionId)
    (trackAlias : UInt64) : List SubscriberEntry :=
  ((s.subscriptions.values.filter fun sub =>
    sub.publisherSession = publisherSession && sub.publisherTrackAlias == trackAlias).flatMap
      fun sub => sub.subscribers).filter fun e => (s.sessions.lookup e.sessionId).isSome

/-- The publisher has answered a SUBSCRIBE for the track with the alias. -/
def World.Answered (w : World) (publisher : SessionId) (trackAlias : UInt64)
    (track : FullTrackName) : Prop :=
  ∃ t ∈ w.subscribes, t.track = some track ∧ (∃ p ∈ t.publisher, p.1 = publisher) ∧
    ∃ answer ∈ t.subscribeOk, answer.message.trackAlias = trackAlias

instance (w : World) (publisher : SessionId) (trackAlias : UInt64) (track : FullTrackName) :
    Decidable (w.Answered publisher trackAlias track) :=
  inferInstanceAs (Decidable (∃ t ∈ w.subscribes, _ ∧ (∃ p ∈ t.publisher, _) ∧ _))

/-- The groups of the data streams of the track that an object has been received on. -/
def Network.receivedGroups (n : Network) (track : FullTrackName) : List UInt64 :=
  ((n.world.dataStreams.zip n.readers).filter fun (t, reader) =>
    n.world.Answered t.senderSession t.header.trackAlias track ∧ reader.taken ≠ []).map
      fun (t, _) => t.header.groupId

/-- The track that the next step of the task `k` records it as a subscriber of: it joins an existing
subscription, or records its own. -/
def World.recordsFor (w : World) (k : RequestId) : Option FullTrackName := do
  let t ← w.task k
  let track ← t.track
  match t.pc with
  | .aggregate => (w.state.subscriptions.lookup track).map fun _ => track
  | .record => some track
  | _ => none

/-- What tells for which subscription a data stream was opened: its connection, the answers that had
been sent before, and the alias, if it begins with a header. -/
structure StreamOrigin where
  connection : ConnectionId
  answers : List Answer
  trackAlias : Option UInt64
deriving DecidableEq, Repr

def UniStream.origin (c : ConnectionId) (stream : UniStream) : StreamOrigin where
  connection := c
  answers := stream.answers
  trackAlias := stream.header.map (·.trackAlias)

/-! ### The history -/

structure History where
  /-- The data streams that peers have opened. -/
  uni : List StreamOrigin
  /-- The largest group that had been received of its track when the subscriber was recorded. -/
  largest : RequestId → Option UInt64
  /-- The subscribers that the lookup of a data stream has found, and those of them for whom a
  stream has still to be opened. -/
  found : Nat → List RequestId
  pending : Nat → List RequestId
  /-- The state in which the subscribers of a data stream were looked up. -/
  lookups : Nat → Option World
  /-- From which data stream, and for whom, each of the streams to subscribers was opened. -/
  served : List (Nat × RequestId)

namespace History

def new : History where
  uni := []
  largest := fun _ => none
  found := fun _ => []
  pending := fun _ => []
  lookups := fun _ => none
  served := []

/-- The task `k` takes a step. -/
def subscribe (h : History) (n : Network) (k : RequestId) : History :=
  match n.world.recordsFor k with
  | some track =>
    { h with largest := Function.update h.largest k (n.receivedGroups track).max? }
  | none => h

/-- The task of the data stream `i` takes a step. -/
def dataStream (h : History) (w : World) (i : Nat) (t : DataStreamTask) (input : Input) :
    History :=
  match t.pc, input with
  | .lookup, .proceed =>
    let found := (w.state.findSubscriberEntries t.senderSession t.header.trackAlias).map (·.request)
    { h with
      found := Function.update h.found i found
      pending := Function.update h.pending i found
      lookups := Function.update h.lookups i (some w) }
  | .openStreams (_ :: _), .opened ok =>
    { h with
      pending := Function.update h.pending i (h.pending i).tail
      served := h.served ++ if ok then ((h.pending i).take 1).map fun k => (i, k) else [] }
  | _, _ => h

def note (n : Network) (h : History) : NetworkLabel → History
  | .openUni c content => { h with uni := h.uni ++ [UniStream.origin c ⟨content, n.answers⟩] }
  | .relay (.subscribe k .proceed) => h.subscribe n k
  | .relay (.dataStream i input) =>
    match n.world.dataStreams[i]? with
    | some t => h.dataStream n.world i t input
    | none => h
  | _ => h

end History

/-- The network with its history. -/
def recorded : Machine (Network × History) NetworkLabel :=
  network.withHistory .new History.note

theorem recorded_step {x x' : Network × History} {l : NetworkLabel}
    (h : recorded.step x l = some x') : NetworkStep x.1 l x'.1 ∧ x'.2 = History.note x.1 x.2 l := by
  obtain ⟨hstep, hnote⟩ := Machine.withHistory_step.mp h
  exact ⟨.of_step hstep, hnote⟩

/-! ### The entries and their sessions -/

theorem forall₂_filterMap {α β : Type} (f : α → Option β) (as : List α) :
    List.Forall₂ (fun a b => f a = some b) (as.filter fun a => (f a).isSome) (as.filterMap f) := by
  induction as with
  | nil => exact .nil
  | cons a as ih =>
    cases h : f a with
    | none => simpa [h] using ih
    | some b =>
      rw [List.filter_cons_of_pos (by simp [h]), List.filterMap_cons_some h]
      exact .cons h ih

namespace RelayState

variable {s : RelayState} {publisher : SessionId} {trackAlias : UInt64}

theorem findSubscriberEntries_sessions :
    List.Forall₂ (fun e session => s.sessions.lookup e.sessionId = some session)
      (s.findSubscriberEntries publisher trackAlias)
      (s.findSubscriberSessions publisher trackAlias) :=
  forall₂_filterMap _ _

theorem mem_findSubscriberEntries {e : SubscriberEntry} :
    e ∈ s.findSubscriberEntries publisher trackAlias ↔
      e.sessionId ∈ s.sessions ∧ ∃ track sub, s.subscriptions.lookup track = some sub ∧
        sub.publisherSession = publisher ∧ sub.publisherTrackAlias = trackAlias ∧
        e ∈ sub.subscribers := by
  simp only [findSubscriberEntries, List.mem_filter, List.mem_flatMap, Map.mem_values,
    Bool.and_eq_true, decide_eq_true_eq, beq_iff_eq, AList.lookup_isSome]
  constructor
  · rintro ⟨⟨sub, ⟨⟨track, htrack⟩, hpublisher, halias⟩, he⟩, hsession⟩
    exact ⟨hsession, track, sub, htrack, hpublisher, halias, he⟩
  · rintro ⟨hsession, track, sub, htrack, hpublisher, halias, he⟩
    exact ⟨⟨sub, ⟨⟨track, htrack⟩, hpublisher, halias⟩, he⟩, hsession⟩

/-- A lookup finds nothing twice that tells the subscribers of each track apart, and those of
different tracks. -/
theorem nodup_findSubscriberEntries {β : Type} {f : SubscriberEntry → β}
    (hwithin : ∀ track sub, s.subscriptions.lookup track = some sub →
      (sub.subscribers.map f).Nodup)
    (hapart : ∀ track sub track' sub', s.subscriptions.lookup track = some sub →
      s.subscriptions.lookup track' = some sub' → ∀ e ∈ sub.subscribers, ∀ e' ∈ sub'.subscribers,
        f e = f e' → track = track') :
    ((s.findSubscriberEntries publisher trackAlias).map f).Nodup := by
  have hall : (s.subscriptions.values.flatMap fun sub => sub.subscribers.map f).Nodup := by
    rw [Map.values, List.flatMap_map, List.nodup_flatMap]
    constructor
    · intro e he
      exact hwithin e.1 e.2 (Map.lookup_eq_some_iff.mpr he)
    · refine (List.nodupKeys_iff_pairwise.mp s.subscriptions.nodupKeys).imp_of_mem ?_
      intro e e' he he' hne b hb hb'
      obtain ⟨entry, hentry, rfl⟩ := List.mem_map.mp hb
      obtain ⟨entry', hentry', hsame⟩ := List.mem_map.mp hb'
      exact hne (hapart e.1 e.2 e'.1 e'.2 (Map.lookup_eq_some_iff.mpr he)
        (Map.lookup_eq_some_iff.mpr he') entry hentry entry' hentry' hsame.symm)
  refine hall.sublist ?_
  rw [← List.map_flatMap]
  refine List.Sublist.map _ (List.filter_sublist.trans ?_)
  exact List.filter_sublist.flatMap _

end RelayState

/-! ### What a step notes -/

namespace History

variable {n n' : Network} {h : History} {l : NetworkLabel}

/-- Only the step of a data stream has to do with streams to subscribers. -/
theorem note_streams (hl : ∀ i input, l ≠ .relay (.dataStream i input)) :
    (note n h l).found = h.found ∧ (note n h l).pending = h.pending ∧
      (note n h l).lookups = h.lookups ∧ (note n h l).served = h.served := by
  unfold note
  split
  · exact ⟨rfl, rfl, rfl, rfl⟩
  · unfold subscribe
    split <;> exact ⟨rfl, rfl, rfl, rfl⟩
  · exact absurd rfl (hl _ _)
  · exact ⟨rfl, rfl, rfl, rfl⟩

theorem note_dataStream {i : Nat} {t : DataStreamTask} {input : Input}
    (ht : n.world.dataStreams[i]? = some t) :
    note n h (.relay (.dataStream i input)) = h.dataStream n.world i t input := by
  simp only [note, ht]

/-- Where the streams come from that a task has still to open: from its lookup, in front of the one
that has just been tried, or they were there before. -/
inductive PendingOrigin (n : Network) (h : History) (l : NetworkLabel) (i : Nat)
    (t' : DataStreamTask) (todo' : List MoqtSession) (pending' : List RequestId) : Prop
  | kept {t : DataStreamTask} (ht : n.world.dataStreams[i]? = some t)
      (hheader : t'.header = t.header) (hpc : t.pc = .openStreams todo')
      (hpending : pending' = h.pending i)
  | found {t : DataStreamTask} (hl : l = .relay (.dataStream i .proceed))
      (ht : n.world.dataStreams[i]? = some t) (hheader : t'.header = t.header)
      (hpc : t.pc = .lookup)
      (htodo : todo' =
        n.world.state.findSubscriberSessions t.senderSession t.header.trackAlias)
      (hpending : pending' = (n.world.state.findSubscriberEntries t.senderSession
        t.header.trackAlias).map (·.request))
  | tried {t : DataStreamTask} {session : MoqtSession} (ok : Bool)
      (hl : l = .relay (.dataStream i (.opened ok))) (ht : n.world.dataStreams[i]? = some t)
      (hheader : t'.header = t.header) (hpc : t.pc = .openStreams (session :: todo'))
      (hpending : pending' = (h.pending i).tail)

theorem pendingOrigin (hstep : NetworkStep n l n') {i : Nat} {t' : DataStreamTask}
    {todo' : List MoqtSession} (ht' : n'.world.dataStreams[i]? = some t')
    (hpc' : t'.pc = .openStreams todo') :
    PendingOrigin n h l i t' todo' ((note n h l).pending i) := by
  by_cases hl : ∃ j input, l = .relay (.dataStream j input)
  · obtain ⟨j, input, rfl⟩ := hl
    obtain ⟨t, reader, reader', ht, -, hdata, -⟩ := hstep.moved
    rw [note_dataStream ht]
    by_cases hij : i = j
    · subst hij
      have stay (f : DataStreamTask → DataStreamTask) := World.updateData_self f ht
      generalize n'.world = w' at hdata ht'
      cases hdata with
      | lookup hpc hfree hsessions =>
        obtain rfl := Option.mem_unique ht' (stay _)
        change (if _ then DataStreamPc.drain else _) = _ at hpc'
        split at hpc'
        · cases hpc'
        · obtain rfl := DataStreamPc.openStreams.inj hpc'
          refine .found rfl ht rfl hpc hsessions ?_
          simp [dataStream, hpc]
      | openStream hpc =>
        obtain rfl := Option.mem_unique ht' (World.updateData_self _ (stay _))
        obtain rfl := DataStreamPc.openStreams.inj hpc'
        exact .tried true rfl ht rfl hpc (by simp [dataStream, hpc])
      | skipStream hpc =>
        obtain rfl := Option.mem_unique ht' (stay _)
        obtain rfl := DataStreamPc.openStreams.inj hpc'
        exact .tried false rfl ht rfl hpc (by simp [dataStream, hpc])
      | drained hpc object =>
        obtain rfl := Option.mem_unique ht' ht
        rw [hpc] at hpc'
        cases hpc'
      | _ =>
        obtain rfl := Option.mem_unique ht' (stay _)
        cases hpc'
    · rw [hdata.getElem?_other hij] at ht'
      refine .kept ht' rfl hpc' ?_
      unfold dataStream
      split <;> simp [hij]
  · have hl : ∀ j input, l ≠ .relay (.dataStream j input) := fun j input heq => hl ⟨j, input, heq⟩
    rw [(note_streams hl).2.1]
    cases hstep.dataChange with
    | same hstreams hdata hreaders => exact .kept (hdata ▸ ht') rfl hpc' rfl
    | accepted hl' hlink hstream hconn hread hstreams hdata hreaders =>
      rw [hdata] at ht'
      rcases Table.getElem?_concat.mp ht' with ht | ⟨-, rfl⟩
      · exact .kept ht rfl hpc' rfl
      · cases hpc'
    | moved hl' => exact absurd hl' (hl _ _)

/-- Where a stream to a subscriber comes from: the step opens it, or it was there before. -/
inductive ServedOrigin (n : Network) (h : History) (l : NetworkLabel) (s : StreamId) (i : Nat)
    (k : RequestId) (d' : Downstream) : Prop
  | kept {d : Downstream} (hk : h.served[s]? = some (i, k)) (hd : n.world.streams[s]? = some d)
      (hsession : d'.session = d.session) (hheader : d'.header = d.header)
  | opened {t : DataStreamTask} {todo : List MoqtSession}
      (hl : l = .relay (.dataStream i (.opened true))) (ht : n.world.dataStreams[i]? = some t)
      (hpc : t.pc = .openStreams (d'.session :: todo)) (hk : (h.pending i).head? = some k)
      (hheader : d'.header = t.header)

/-- The streams to subscribers after a step. -/
structure StreamsNoted (n n' : Network) (h : History) (l : NetworkLabel) : Prop where
  length : (note n h l).served.length = n'.world.streams.length
  origin : ∀ (s : StreamId) (i : Nat) (k : RequestId) (d' : Downstream),
    (note n h l).served[s]? = some (i, k) → n'.world.streams[s]? = some d' →
      ServedOrigin n h l s i k d'

end History

/-- What a step makes of those who have been found: a lookup finds some, a stream is opened for one
of them, or cannot be opened, or nothing has happened to them. -/
inductive FoundMove (n n' : Network) (h h' : History) (l : NetworkLabel) : Prop
  | same (hfound : h'.found = h.found) (hpending : h'.pending = h.pending)
      (hlookups : h'.lookups = h.lookups) (hserved : h'.served = h.served)
      (htoOpen : n'.world.toOpen = n.world.toOpen) (hopened : n'.world.openedBy = n.world.openedBy)
  | found {i : Nat} {t t' : DataStreamTask} {found : List RequestId}
      (ht : n.world.dataStreams[i]? = some t) (hpc : t.pc = .lookup)
      (ht' : n'.world.dataStreams[i]? = some t') (hpc' : t'.pc ≠ .lookup)
      (hentries : found = (n.world.state.findSubscriberEntries t.senderSession
        t.header.trackAlias).map (·.request))
      (hfound : h'.found = Function.update h.found i found)
      (hpending : h'.pending = Function.update h.pending i found)
      (hlookups : h'.lookups = Function.update h.lookups i (some n.world))
      (hserved : h'.served = h.served)
      (htoOpen : n'.world.toOpen = Function.update n.world.toOpen i
        (n.world.state.findSubscriberSessions t.senderSession t.header.trackAlias))
      (hopened : n'.world.openedBy = n.world.openedBy)
  | opened {i : Nat} {k : RequestId} {rest : List RequestId} {session : MoqtSession}
      {todo : List MoqtSession} (hold : h.pending i = k :: rest)
      (hfound : h'.found = h.found) (hpending : h'.pending = Function.update h.pending i rest)
      (hlookups : h'.lookups = h.lookups) (hserved : h'.served = h.served ++ [(i, k)])
      (hbefore : n.world.toOpen i = session :: todo)
      (htoOpen : n'.world.toOpen = Function.update n.world.toOpen i todo)
      (hopened : n'.world.openedBy = Function.update n.world.openedBy i
        (n.world.openedBy i ++ [n.world.streams.length]))
  | skipped {i : Nat} {session : MoqtSession} {todo : List MoqtSession}
      (hl : l = .relay (.dataStream i (.opened false)))
      (hfound : h'.found = h.found)
      (hpending : h'.pending = Function.update h.pending i (h.pending i).tail)
      (hlookups : h'.lookups = h.lookups) (hserved : h'.served = h.served)
      (hbefore : n.world.toOpen i = session :: todo)
      (htoOpen : n'.world.toOpen = Function.update n.world.toOpen i todo)
      (hopened : n'.world.openedBy = n.world.openedBy)

/-- The session is that of the subscriber `k`. -/
def World.SessionOf (w : World) (k : RequestId) (session : MoqtSession) : Prop :=
  ∃ u, w.task k = some u ∧ session = ⟨u.session⟩

instance (w : World) (k : RequestId) (session : MoqtSession) : Decidable (w.SessionOf k session) :=
  inferInstanceAs (Decidable (∃ u ∈ w.task k, session = ⟨u.session⟩))

/-- The history says for whom each stream is. -/
structure Attributed (n : Network) (h : History) : Prop where
  length : h.served.length = n.world.streams.length
  opened : ∀ i, n.world.openedBy i = (h.served.zipIdx.filter fun (e, _) => e.1 = i).map (·.2)
  pending : ∀ i, List.Forall₂ n.world.SessionOf (h.pending i) (n.world.toOpen i)
  served : ∀ (s : StreamId) (i : Nat) (k : RequestId) (d : Downstream),
    h.served[s]? = some (i, k) → n.world.streams[s]? = some d → n.world.SessionOf k d.session

namespace Attributed

variable {n n' : Network} {h : History} {l : NetworkLabel}

theorem new : Attributed .new .new where
  length := rfl
  opened _ := rfl
  pending _ := .nil
  served s i k d hk := by simp [History.new] at hk

/-- For whom the next stream is opened. -/
theorem next (hattributed : Attributed n h) {i : Nat} {t : DataStreamTask} {session : MoqtSession}
    {todo : List MoqtSession} (ht : n.world.dataStreams[i]? = some t)
    (hpc : t.pc = .openStreams (session :: todo)) : ∃ k rest, h.pending i = k :: rest ∧
      n.world.SessionOf k session := by
  have hpending := hattributed.pending i
  rw [World.toOpen_of ht, DataStreamTask.toOpen, hpc] at hpending
  obtain ⟨k, rest, hsession, -, hcons⟩ := List.forall₂_cons_right_iff.mp hpending
  exact ⟨k, rest, hcons, hsession⟩

/-- Streams are noted when they are opened. -/
theorem streamsNoted (hattributed : Attributed n h) (hstep : NetworkStep n l n') :
    History.StreamsNoted n n' h l := by
  have same (hserved : (History.note n h l).served = h.served)
      (hstreams : n'.world.streams = n.world.streams) : History.StreamsNoted n n' h l := by
    constructor
    · rw [hserved, hstreams]
      exact hattributed.length
    · rw [hserved, hstreams]
      exact fun s i k d' hk hd' => .kept hk hd' rfl rfl
  have updated (id : StreamId) (f : Downstream → Downstream)
      (hserved : (History.note n h l).served = h.served)
      (hstreams : n'.world.streams = n.world.streams.modify id f)
      (hf : ∀ d, (f d).session = d.session ∧ (f d).header = d.header) :
      History.StreamsNoted n n' h l := by
    constructor
    · rw [hserved, hstreams, List.length_modify]
      exact hattributed.length
    · rw [hserved, hstreams]
      intro s i k d' hk hd'
      obtain ⟨d, hd, rfl⟩ := Table.getElem?_modify.mp hd'
      by_cases hs : s = id
      · rw [if_pos hs]
        exact .kept hk hd (hf d).1 (hf d).2
      · rw [if_neg hs]
        exact .kept hk hd rfl rfl
  by_cases hl : ∃ i input, l = .relay (.dataStream i input)
  · obtain ⟨i, input, rfl⟩ := hl
    obtain ⟨t, reader, reader', ht, -, hdata, -⟩ := hstep.moved
    have hnote : History.note n h (.relay (.dataStream i input)) =
        h.dataStream n.world i t input := History.note_dataStream ht
    generalize hw : n'.world = w' at hdata same updated
    cases hdata with
    | @openStream session todo hpc =>
      obtain ⟨k, rest, hcons, -⟩ := hattributed.next ht hpc
      have hserved : (History.note n h (.relay (.dataStream i (.opened true)))).served =
          h.served ++ [(i, k)] := by
        rw [hnote]
        simp [History.dataStream, hpc, hcons]
      have hstreams : n'.world.streams = n.world.streams ++ [⟨session, t.header, [], false⟩] := by
        rw [hw]
        rfl
      constructor
      · rw [hserved, hstreams, List.length_append, List.length_append, hattributed.length]
        rfl
      · rw [hserved, hstreams]
        intro s j k' d' hk hd'
        rcases Table.getElem?_concat.mp hk with hold | ⟨rfl, heq⟩
        · rcases Table.getElem?_concat.mp hd' with hd | ⟨rfl, -⟩
          · exact .kept hold hd rfl rfl
          · rw [← hattributed.length] at hold
            simp at hold
        · rcases Table.getElem?_concat.mp hd' with hd | ⟨-, rfl⟩
          · rw [hattributed.length] at hd
            simp at hd
          · obtain ⟨rfl, rfl⟩ := Prod.mk.inj heq
            exact .opened rfl ht hpc (by rw [hcons]; rfl) rfl
    | wroteObject hpc =>
      exact updated _ _ (by rw [hnote]; simp [History.dataStream, hpc]) rfl fun _ => ⟨rfl, rfl⟩
    | finished hpc | dropped hpc =>
      exact updated _ _ (by rw [hnote]; simp [History.dataStream, hpc]) rfl fun _ => ⟨rfl, rfl⟩
    | _ hpc => exact same (by rw [hnote]; simp [History.dataStream, hpc]) rfl
  · have hl : ∀ i input, l ≠ .relay (.dataStream i input) := fun i input heq => hl ⟨i, input, heq⟩
    cases hstep.dataChange with
    | same hstreams hdata hreaders => exact same (History.note_streams hl).2.2.2 hstreams
    | accepted hl' hlink hstream hconn hread hstreams hdata hreaders =>
      exact same (History.note_streams hl).2.2.2 hstreams
    | moved hl' => exact absurd hl' (hl _ _)

theorem foundMove (hattributed : Attributed n h) (hstep : NetworkStep n l n') :
    FoundMove n n' h (History.note n h l) l := by
  by_cases hdata : ∃ i input, l = .relay (.dataStream i input)
  · obtain ⟨i, input, rfl⟩ := hdata
    obtain ⟨t, reader, reader', ht, -, hdata, -⟩ := hstep.moved
    rw [History.note_dataStream ht]
    obtain ⟨t', ht', -⟩ := hdata.move ht
    obtain ⟨htoOpen, hopened⟩ := hdata.opens ht'
    have stay (f : DataStreamTask → DataStreamTask) := World.updateData_self f ht
    generalize hw : n'.world = w' at hdata ht'
    cases hdata with
    | @lookup hpc hfree sessions hsessions =>
      obtain rfl := Option.mem_unique ht' (stay _)
      have hpc' : (if sessions.isEmpty then DataStreamPc.drain else .openStreams sessions) ≠
          .lookup := by
        split <;> simp
      have htodo : DataStreamTask.toOpen
          { t with pc := if sessions.isEmpty then .drain else .openStreams sessions } =
          sessions := by
        cases sessions <;> rfl
      refine .found ht hpc (hw ▸ ht') hpc' rfl ?_ ?_ ?_ ?_ ?_ ?_
      · simp [History.dataStream, hpc]
      · simp [History.dataStream, hpc]
      · simp [History.dataStream, hpc]
      · simp [History.dataStream, hpc]
      · rw [htoOpen, htodo, hsessions]
      · rw [hopened, Function.update_eq_self_iff]
        exact (World.openedBy_of ht).symm
    | @openStream session todo hpc =>
      obtain rfl := Option.mem_unique ht' (World.updateData_self _ (stay _))
      have hbefore : n.world.toOpen i = session :: todo := by
        rw [World.toOpen_of ht, DataStreamTask.toOpen, hpc]
      obtain ⟨k, rest, hcons, -⟩ := hattributed.next ht hpc
      refine .opened hcons ?_ ?_ ?_ ?_ hbefore htoOpen ?_
      · simp [History.dataStream, hpc]
      · simp [History.dataStream, hpc, hcons]
      · simp [History.dataStream, hpc]
      · simp [History.dataStream, hpc, hcons]
      · rw [hopened, World.openedBy_of ht]
        simp [World.gotoData, World.updateData]
    | @skipStream session todo hpc =>
      obtain rfl := Option.mem_unique ht' (stay _)
      have hbefore : n.world.toOpen i = session :: todo := by
        rw [World.toOpen_of ht, DataStreamTask.toOpen, hpc]
      refine .skipped rfl ?_ ?_ ?_ ?_ hbefore htoOpen ?_
      · simp [History.dataStream, hpc]
      · simp [History.dataStream, hpc]
      · simp [History.dataStream, hpc]
      · simp [History.dataStream, hpc]
      · rw [hopened, Function.update_eq_self_iff]
        exact (World.openedBy_of ht).symm
    | drained hpc object =>
      refine .same ?_ ?_ ?_ ?_ (congrArg World.toOpen hw) (congrArg World.openedBy hw)
      all_goals simp [History.dataStream, hpc]
    | _ hpc =>
      obtain rfl := Option.mem_unique ht' (stay _)
      have hnone : n.world.toOpen i = [] := by rw [World.toOpen_of ht, DataStreamTask.toOpen, hpc]
      refine .same ?_ ?_ ?_ ?_ ?_ ?_
      · simp [History.dataStream, hpc]
      · simp [History.dataStream, hpc]
      · simp [History.dataStream, hpc]
      · simp [History.dataStream, hpc]
      · rw [htoOpen, Function.update_eq_self_iff]
        exact hnone.symm
      · rw [hopened, Function.update_eq_self_iff]
        exact (World.openedBy_of ht).symm
  · have hl : ∀ i input, l ≠ .relay (.dataStream i input) :=
      fun i input heq => hdata ⟨i, input, heq⟩
    obtain ⟨hfound, hpending, hlookups, hserved⟩ := History.note_streams (n := n) (h := h) hl
    cases hstep.dataChange with
    | same hstreams hdata hreaders =>
      refine .same hfound hpending hlookups hserved ?_ ?_
      · unfold World.toOpen
        rw [hdata]
      · unfold World.openedBy
        rw [hdata]
    | accepted hl' hlink hstream hconn hread hstreams hdata hreaders =>
      refine .same hfound hpending hlookups hserved (funext fun i => ?_) (funext fun i => ?_)
      · rw [World.toOpen, hdata]
        exact Table.elim_concat rfl
      · rw [World.openedBy, hdata]
        exact Table.elim_concat rfl
    | moved hl' => exact absurd hl' (hl _ _)

/-- A subscriber has the session that it had. -/
theorem sessionOf_step {k : RequestId} {session : MoqtSession}
    (hsession : n.world.SessionOf k session) (hstep : NetworkStep n l n') :
    n'.world.SessionOf k session := by
  obtain ⟨u, hu, rfl⟩ := hsession
  rcases hstep.world with ⟨l', -, hworld⟩ | ⟨-, hsame⟩
  · have hworld := Step.of_step hworld
    obtain ⟨u', hu'⟩ := hworld.after hu
    have hk := hworld.task k
    rw [hu, hu'] at hk
    exact ⟨u', hu', by rw [hk.session]⟩
  · exact ⟨u, by rw [hsame, hu], rfl⟩

/-- What the lookup has found are the sessions of those whom it has found. -/
theorem found (hlife : Lifecycle n.world) (hnumbered : Numbered n.world) (publisher : SessionId)
    (trackAlias : UInt64) : List.Forall₂ n.world.SessionOf
      ((n.world.state.findSubscriberEntries publisher trackAlias).map (·.request))
      (n.world.state.findSubscriberSessions publisher trackAlias) := by
  have hlisted : ∀ e ∈ n.world.state.findSubscriberEntries publisher trackAlias,
      ∃ u, n.world.task e.request = some u ∧ u.session = e.sessionId := by
    intro e he
    obtain ⟨-, track, sub, hsub, -, -, hmem⟩ := RelayState.mem_findSubscriberEntries.mp he
    obtain ⟨u, hu, hsession, -⟩ := hlife.upstreams.listed track sub hsub e hmem
    exact ⟨u, hu, hsession⟩
  have hboth := (List.forall₂_and_left _ _).mpr
    ⟨hlisted, RelayState.findSubscriberEntries_sessions⟩
  rw [List.forall₂_map_left_iff]
  refine hboth.imp ?_
  rintro e session ⟨⟨u, hu, hsession⟩, hlookup⟩
  refine ⟨u, hu, MoqtSession.ext ?_⟩
  rw [hnumbered.session _ _ hlookup, hsession]

theorem step (hattributed : Attributed n h) (hlife : Lifecycle n.world)
    (hnumbered : Numbered n.world) (hstep : NetworkStep n l n') :
    Attributed n' (History.note n h l) where
  length := (hattributed.streamsNoted hstep).length
  opened i := by
    have hbefore := hattributed.opened i
    cases hattributed.foundMove hstep with
    | same _ _ _ hserved _ hopened | found _ _ _ _ _ _ _ _ hserved _ hopened
      | skipped _ _ _ _ hserved _ _ hopened =>
      rw [hserved, hopened]
      exact hbefore
    | @opened j k _ _ _ _ _ _ _ hserved _ _ hopened =>
      rw [hserved, hopened, List.zipIdx_append, List.zipIdx_singleton, List.filter_append,
        List.map_append, ← hbefore, Nat.zero_add, hattributed.length]
      by_cases hj : i = j
      · subst hj
        rw [Function.update_self]
        simp
      · rw [Function.update_of_ne hj]
        simp [Ne.symm hj]
  pending i := by
    have hbefore : List.Forall₂ n.world.SessionOf ((History.note n h l).pending i)
        (n'.world.toOpen i) := by
      have hpending := hattributed.pending i
      cases hattributed.foundMove hstep with
      | same _ hsame _ _ htoOpen =>
        rw [hsame, htoOpen]
        exact hpending
      | @found j t _ _ _ _ _ _ hentries _ hnew _ _ htoOpen =>
        rw [hnew, htoOpen]
        by_cases hj : i = j
        · subst hj
          rw [Function.update_self, Function.update_self, hentries]
          exact found hlife hnumbered _ _
        · rw [Function.update_of_ne hj, Function.update_of_ne hj]
          exact hpending
      | @opened j k rest session todo hold _ hnew _ _ hbefore htoOpen =>
        rw [hnew, htoOpen]
        by_cases hj : i = j
        · subst hj
          rw [hold, hbefore] at hpending
          rw [Function.update_self, Function.update_self]
          exact (List.forall₂_cons.mp hpending).2
        · rw [Function.update_of_ne hj, Function.update_of_ne hj]
          exact hpending
      | @skipped j session todo _ _ hnew _ _ hbefore htoOpen =>
        rw [hnew, htoOpen]
        by_cases hj : i = j
        · subst hj
          rw [hbefore] at hpending
          obtain ⟨k, rest, -, hrest, hcons⟩ := List.forall₂_cons_right_iff.mp hpending
          rw [Function.update_self, Function.update_self, hcons]
          exact hrest
        · rw [Function.update_of_ne hj, Function.update_of_ne hj]
          exact hpending
    exact hbefore.imp fun k session hsession => sessionOf_step hsession hstep
  served s i k d' hk hd' := by
    refine sessionOf_step ?_ hstep
    cases (hattributed.streamsNoted hstep).origin s i k d' hk hd' with
    | kept hold hd hsession hheader =>
      rw [hsession]
      exact hattributed.served s i k _ hold hd
    | opened hl ht hpc hhead hheader =>
      obtain ⟨k', rest, hcons, hsession⟩ := hattributed.next ht hpc
      rw [hcons, List.head?_cons, Option.some.injEq] at hhead
      rwa [← hhead]

end Attributed

theorem attributed_of_reachable {x : Network × History} (h : recorded.Reachable x) :
    Attributed x.1 x.2 := by
  refine h.induction (I := fun x => Attributed x.1 x.2) .new ?_
  intro x l x' hreachable hx hstep
  obtain ⟨hstep, hnote⟩ := recorded_step hstep
  have hknown := known_of_reachable (reachable_world hreachable.of_withHistory)
  rw [hnote]
  exact hx.step hknown.lifecycle hknown.numbered hstep

end Moqt.Relay
