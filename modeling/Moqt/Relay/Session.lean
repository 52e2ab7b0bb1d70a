import Moqt.Relay.Connection
import Moqt.Relay.Network

/-! How long a session lasts.  A session goes with its connection, or before, when the loop of its
`handle_connection` ends; which of them it is, is a matter of the streams that the peer opens. -/

namespace Moqt.Relay

open Library Wire

/-! ### Links -/

/-- What a step makes of the link of a connection. -/
structure LinkMove (n : Network) (l : NetworkLabel) (c : ConnectionId) (link link' : Link) :
    Prop where
  closed : link'.closed = false → link.closed = false
  bi : ∀ content ∈ link'.bi, content ∈ link.bi ∨ l = .openBi c content
  uni : ∀ stream ∈ link'.uni, stream ∈ link.uni ∨
    l = .openUni c stream.content ∧ stream.answers = n.answers

theorem LinkMove.refl (n : Network) (l : NetworkLabel) (c : ConnectionId) (link : Link) :
    LinkMove n l c link link :=
  ⟨id, fun _ h => .inl h, fun _ h => .inl h⟩

theorem Link.Accepts.move {n : Network} {l : NetworkLabel} {c c' : ConnectionId}
    {link link' : Link} {event : SessionEvent} {readers : List DataReader}
    (h : link.Accepts c event link' readers) : LinkMove n l c' link link' := by
  cases h with
  | request hbi hread =>
    refine ⟨id, fun content hmem => .inl ?_, fun _ h => .inl h⟩
    rw [hbi]
    exact List.mem_cons_of_mem _ hmem
  | dataStream huni hread =>
    refine ⟨id, fun _ h => .inl h, fun stream hmem => .inl ?_⟩
    rw [huni]
    exact List.mem_cons_of_mem _ hmem

/-- A link that is there after a step was there before, or is the link of a new connection. -/
theorem NetworkStep.linkMove {n n' : Network} {l : NetworkLabel} (h : NetworkStep n l n')
    {c : ConnectionId} {link' : Link} (hlink' : n'.links[c]? = some link') :
    (∃ link, n.links[c]? = some link ∧ LinkMove n l c link link') ∨
      l = .relay .connect ∧ c = n.links.length ∧ link' = {} := by
  have same (hlink : n.links[c]? = some link') :
      ∃ link, n.links[c]? = some link ∧ LinkMove n l c link link' :=
    ⟨link', hlink, .refl n l c link'⟩
  have updated (c₀ : ConnectionId) (f : Link → Link)
      (hlink : (n.updateLink c₀ f).links[c]? = some link')
      (hf : ∀ link, n.links[c₀]? = some link → LinkMove n l c₀ link (f link)) :
      ∃ link, n.links[c]? = some link ∧ LinkMove n l c link link' := by
    obtain ⟨link, hold, rfl⟩ := Table.getElem?_modify.mp hlink
    refine ⟨link, hold, ?_⟩
    split
    next heq =>
      subst heq
      exact hf link hold
    · exact .refl n l c link
  cases h with
  | openBi hlink hopen content =>
    refine .inl (updated _ _ hlink' fun link _ => ⟨id, ?_, fun _ h => .inl h⟩)
    intro content' hmem
    simpa [eq_comm] using hmem
  | openUni hlink hopen content =>
    refine .inl (updated _ _ hlink' fun link _ => ⟨id, fun _ h => .inl h, ?_⟩)
    intro stream hmem
    rcases List.mem_append.mp hmem with hmem | hmem
    · exact .inl hmem
    · obtain rfl := List.mem_singleton.mp hmem
      exact .inr ⟨rfl, rfl⟩
  | close hlink hopen =>
    exact .inl (updated _ _ hlink' fun link _ => ⟨nofun, fun _ h => .inl h, fun _ h => .inl h⟩)
  | answer ht hsent message => exact .inl (same hlink')
  | relay hdelivers hstep =>
    cases hdelivers with
    | connect =>
      rcases Table.getElem?_concat.mp hlink' with hlink' | ⟨hc, rfl⟩
      · exact .inl (same hlink')
      · exact .inr ⟨rfl, hc, rfl⟩
    | event hlink haccepts =>
      refine .inl (updated _ _ hlink' fun link hlink₀ => ?_)
      obtain rfl := Option.mem_unique hlink hlink₀
      exact haccepts.move
    | _ => exact .inl (same hlink')

theorem NetworkStep.links_length {n n' : Network} {l : NetworkLabel} (h : NetworkStep n l n') :
    n'.links.length = n.links.length + if l = .relay .connect then 1 else 0 := by
  cases h with
  | relay hdelivers hstep => cases hdelivers <;> simp [Network.updateLink, Network.updateReader]
  | _ => simp [Network.updateLink]

/-- Every connection has a link. -/
def Linked (n : Network) : Prop := n.links.length = n.world.connections.length

theorem Linked.new : Linked .new := rfl

theorem Linked.step {n n' : Network} {l : NetworkLabel} (h : Linked n)
    (hstep : NetworkStep n l n') : Linked n' := by
  unfold Linked at h ⊢
  rw [hstep.links_length, h]
  rcases hstep.world with ⟨l', rfl, hworld⟩ | ⟨hl, hsame⟩
  · rw [(Step.of_step hworld).connections_length]
    simp
  · rw [hsame, if_neg (hl _), Nat.add_zero]

theorem linked_of_reachable {n : Network} (h : network.Reachable n) : Linked n :=
  h.invariant Linked.new fun _ _ _ hI hstep => hI.step (NetworkStep.of_step hstep)

/-! ### What is dropped -/

/-- A session, a registered namespace or a subscriber of a track is there before and not after. -/
def Drops (s s' : RelayState) : Prop :=
  (∃ id ∈ s.sessions, id ∉ s'.sessions) ∨
    (∃ ns ∈ s.namespaceToPublisher, ns ∉ s'.namespaceToPublisher) ∨
    ∃ track sub, s.subscriptions.lookup track = some sub ∧ ∃ e ∈ sub.subscribers,
      ∀ sub', s'.subscriptions.lookup track = some sub' → e ∉ sub'.subscribers

theorem not_drops {s s' : RelayState} (hsessions : ∀ id ∈ s.sessions, id ∈ s'.sessions)
    (hnamespaces : ∀ ns ∈ s.namespaceToPublisher, ns ∈ s'.namespaceToPublisher)
    (hsubscriptions : ∀ track sub, s.subscriptions.lookup track = some sub →
      ∃ sub', s'.subscriptions.lookup track = some sub' ∧ sub.subscribers ⊆ sub'.subscribers) :
    ¬Drops s s' := by
  rintro (⟨id, hid, hno⟩ | ⟨ns, hns, hno⟩ | ⟨track, sub, hsub, e, he, hno⟩)
  · exact hno (hsessions id hid)
  · exact hno (hnamespaces ns hns)
  · obtain ⟨sub', hsub', hsubset⟩ := hsubscriptions track sub hsub
    exact hno sub' hsub' (hsubset he)

theorem not_drops_pushSubscriber {s : RelayState} {track : FullTrackName} {sub : Subscription}
    (entry : SubscriberEntry)
    (h : ∀ sub₀, s.subscriptions.lookup track = some sub₀ → sub₀.subscribers ⊆ sub.subscribers) :
    ¬Drops s (s.pushSubscriber track sub entry) := by
  refine not_drops (fun _ h => h) (fun _ h => h) fun track' sub₀ hsub₀ => ?_
  simp only [RelayState.pushSubscriber, Map.lookup_insert_eq]
  split
  next heq =>
    subst heq
    exact ⟨_, rfl, fun e he => List.mem_append_left _ (h sub₀ hsub₀ he)⟩
  · exact ⟨sub₀, hsub₀, List.Subset.refl _⟩

/-- Only the cleanup after the loop of `handle_connection` drops anything. -/
theorem StateStep.removes {w : World} {l : Label} {s : RelayState} (h : StateStep w l s)
    (hdrops : Drops w.state s) : ∃ c, l = .removeSession c := by
  have subscriptions (track : FullTrackName) (sub : Subscription)
      (h : w.state.subscriptions.lookup track = some sub) :
      ∃ sub', w.state.subscriptions.lookup track = some sub' ∧ sub.subscribers ⊆ sub'.subscribers :=
    ⟨sub, h, List.Subset.refl _⟩
  cases h with
  | same => exact absurd hdrops (not_drops (fun _ h => h) (fun _ h => h) subscriptions)
  | registerSession =>
    exact absurd hdrops (not_drops (fun _ h => (AList.mem_insert _).mpr (.inr h)) (fun _ h => h)
      subscriptions)
  | removeSession hconn => exact ⟨_, rfl⟩
  | registerNamespace ht hpc =>
    exact absurd hdrops (not_drops (fun _ h => h) (fun _ h => (AList.mem_insert _).mpr (.inr h))
      subscriptions)
  | trackLock track =>
    unfold RelayState.trackLock at hdrops
    split at hdrops
    · exact absurd hdrops (not_drops (fun _ h => h) (fun _ h => h) subscriptions)
    · exact absurd hdrops (not_drops (fun _ h => h) (fun _ h => h) subscriptions)
  | pushSubscriber ht hpc htrack hexisting =>
    refine absurd hdrops (not_drops_pushSubscriber _ fun sub₀ hsub₀ => ?_)
    obtain rfl := Option.mem_unique hexisting hsub₀
    exact List.Subset.refl _
  | @addSubscriber k t track publisher answer ht hpc htrack hpublisher hanswer =>
    cases hsub : w.state.subscriptions.lookup track with
    | some sub =>
      rw [RelayState.addSubscriber_existing hsub] at hdrops
      refine absurd hdrops (not_drops_pushSubscriber _ fun sub₀ hsub₀ => ?_)
      obtain rfl := Option.mem_unique hsub hsub₀
      exact List.Subset.refl _
    | none =>
      rw [RelayState.addSubscriber_vacant hsub] at hdrops
      refine absurd hdrops (not_drops_pushSubscriber _ fun sub₀ hsub₀ => ?_)
      rw [hsub] at hsub₀
      cases hsub₀

/-! ### Streams that are cut short -/

/-- While a connection is open, its event loop goes on, and nothing is dropped but by the cleanup
after another one. -/
structure SessionsStay (n : Network) : Prop where
  looping : ∀ (c : ConnectionId) (conn : Connection) (link : Link),
    n.world.connections[c]? = some conn → n.links[c]? = some link → link.closed = false →
      conn.status = .looping
  dropped : ∀ (l : Label) (w' : World), relay.step n.world l = some w' →
    Drops n.world.state w'.state → ∃ (c : ConnectionId) (link : Link), l = .removeSession c ∧
      n.links[c]? = some link ∧ link.closed = true

/-- A stream that the peer opens carries the whole of the message that `next_event` reads from it,
and one that it expects there; what becomes of the stream behind it is left open. -/
def BeginsWhole (_ : Network) : NetworkLabel → Prop
  | .openBi _ content => (requestEvent content).isOk = true
  | .openUni _ content => (dataStreamEvent content).isOk = true
  | _ => True

instance (n : Network) : (l : NetworkLabel) → Decidable (BeginsWhole n l)
  | .openBi _ content => inferInstanceAs (Decidable ((requestEvent content).isOk = true))
  | .openUni _ content => inferInstanceAs (Decidable ((dataStreamEvent content).isOk = true))
  | .close _ | .answer _ _ | .relay _ => isTrue trivial

theorem not_errs_of_isOk {α : Type} {x : Reader α} {s : ByteStream} (h : (x s).isOk = true) :
    errs x s = false := by
  unfold errs
  cases hx : x s with
  | ok p => rfl
  | error e =>
    rw [hx] at h
    cases h

/-- What is in front of the relay begins whole, and the connections that are open are served. -/
structure Served (n : Network) : Prop where
  linked : Linked n
  bi : ∀ (c : ConnectionId) (link : Link), n.links[c]? = some link → ∀ content ∈ link.bi,
    (requestEvent content).isOk = true
  uni : ∀ (c : ConnectionId) (link : Link), n.links[c]? = some link → ∀ stream ∈ link.uni,
    (dataStreamEvent stream.content).isOk = true
  looping : ∀ (c : ConnectionId) (conn : Connection) (link : Link),
    n.world.connections[c]? = some conn → n.links[c]? = some link → link.closed = false →
      conn.status = .looping

theorem Served.not_errs {n : Network} (h : Served n) {c : ConnectionId} {link : Link}
    (hlink : n.links[c]? = some link) (hopen : link.closed = false) : link.errs = false := by
  rw [Link.errs, hopen, Bool.false_or, Bool.or_eq_false_iff, Option.any_eq_false,
    Option.any_eq_false]
  constructor
  · intro content hhead
    simp [not_errs_of_isOk (h.bi c link hlink content (List.mem_of_mem_head? hhead))]
  · intro stream hhead
    simp [not_errs_of_isOk (h.uni c link hlink stream (List.mem_of_mem_head? hhead))]

theorem Served.step {n n' : Network} {l : NetworkLabel} (h : Served n) (hl : BeginsWhole n l)
    (hstep : NetworkStep n l n') : Served n' where
  linked := h.linked.step hstep
  bi c link' hlink' content hmem := by
    rcases hstep.linkMove hlink' with ⟨link, hlink, hmove⟩ | ⟨-, -, rfl⟩
    · rcases hmove.bi content hmem with hmem | rfl
      · exact h.bi c link hlink content hmem
      · exact hl
    · cases hmem
  uni c link' hlink' stream hmem := by
    rcases hstep.linkMove hlink' with ⟨link, hlink, hmove⟩ | ⟨-, -, rfl⟩
    · rcases hmove.uni stream hmem with hmem | ⟨rfl, -⟩
      · exact h.uni c link hlink stream hmem
      · exact hl
    · cases hmem
  looping c conn' link' hconn' hlink' hopen' := by
    rcases hstep.linkMove hlink' with ⟨link, hlink, hmove⟩ | ⟨hl, hc, -⟩
    · have hopen := hmove.closed hopen'
      rcases hstep.world with ⟨l', rfl, hworld⟩ | ⟨-, hsame⟩
      · cases (Step.of_step hworld).connectionMove hconn' with
        | same _ hconn hid hstatus => rw [hstatus, h.looping c _ link hconn hlink hopen]
        | left hl' hconn hstatus hconn' =>
          -- the loop is left only for a link that the next event cannot be read from
          subst hl'
          cases hstep with
          | relay hdelivers hstep =>
            cases hdelivers with
            | eventError hlink₀ herrs =>
              obtain rfl := Option.mem_unique hlink hlink₀
              rw [h.not_errs hlink hopen] at herrs
              cases herrs
        | removed hl' hconn hstatus hconn' =>
          rw [h.looping c _ link hconn hlink hopen] at hstatus
          cases hstatus
        | connected hl' hc hconn' => rw [hconn']
      · rw [hsame] at hconn'
        exact h.looping c conn' link hconn' hlink hopen
    · rcases hstep.world with ⟨l', rfl, hworld⟩ | ⟨hother, -⟩
      · obtain rfl := NetworkLabel.relay.inj hl
        have hconn := hc.trans h.linked
        cases (Step.of_step hworld).connectionMove hconn' with
        | same _ hold hid hstatus =>
          rw [hconn, List.getElem?_eq_none (Nat.le_refl _)] at hold
          cases hold
        | left hl' => cases hl'
        | removed hl' => cases hl'
        | connected hl' hc hconn' => rw [hconn']
      · exact absurd hl (hother _)

theorem Served.new : Served network.init where
  linked := rfl
  bi c link hlink := by simp [network, Network.new] at hlink
  uni c link hlink := by simp [network, Network.new] at hlink
  looping c conn link hconn := by simp [network, Network.new, World.new] at hconn

theorem Served.sessionsStay {n : Network} (h : Served n) : SessionsStay n where
  looping := h.looping
  dropped l w' hstep hdrops := by
    have hstep := Step.of_step hstep
    obtain ⟨c, rfl⟩ := hstep.stateStep.removes hdrops
    cases hstep with
    | @removeSession _ conn hconn hstatus hfree =>
      have hlt : c < n.links.length := by
        rw [h.linked]
        exact (List.getElem?_eq_some_iff.mp hconn).1
      refine ⟨c, n.links[c], rfl, List.getElem?_eq_getElem hlt, ?_⟩
      by_contra hopen
      have hlooping := h.looping c conn _ hconn (List.getElem?_eq_getElem hlt)
        (Bool.eq_false_of_not_eq_true hopen)
      rw [hstatus] at hlooping
      cases hlooping

/-- If every stream begins whole, sessions end with their connections only. -/
theorem sessionsStay_of_beginsWhole {ls : List NetworkLabel}
    (h : network.Meets BeginsWhole network.init ls) :
    SessionsStay (network.run network.init ls) :=
  (network.invariant Served.new
    (fun _ _ _ hI hl hstep => hI.step hl (NetworkStep.of_step hstep)) h).sessionsStay

/-- A stream that the peer opens carries messages, or is cut short somewhere. -/
def BeginsWell (_ : Network) : NetworkLabel → Prop
  | .openBi _ content => ∃ whole, (requestEvent whole).isOk = true ∧ content.bytes <+: whole.bytes
  | .openUni _ content =>
    ∃ whole, (dataStreamEvent whole).isOk = true ∧ content.bytes <+: whole.bytes
  | _ => True

/-- A data stream is finished within its header. -/
def cutHeader : List NetworkLabel :=
  [.relay .connect, .openUni 0 { bytes := [0x10, 1], ending := .finished },
    .relay (.eventError 0)]

theorem not_sessionsStay_cutHeader : ¬∀ ls, network.Meets BeginsWell network.init ls →
    SessionsStay (network.run network.init ls) := by
  intro h
  have hwell : network.Meets BeginsWell network.init cutHeader :=
    ⟨fun _ => trivial,
      fun _ => ⟨{ bytes := [0x10, 1, 2, 128], ending := .finished }, by decide, [2, 128], rfl⟩,
      fun _ => trivial, trivial⟩
  have hlooping := (h cutHeader hwell).looping 0 { sessionId := 0, status := .leaving }
    { uni := [⟨{ bytes := [0x10, 1], ending := .finished }, []⟩] } (by decide) (by decide) rfl
  cases hlooping

/-- A data stream is reset within an object. -/
theorem sessionsStay_cutObject : SessionsStay (network.run network.init
    [.relay .connect, .openUni 0 { bytes := [0x10, 1, 2, 128, 0], ending := .reset },
      .relay (.event 0 (.dataStream ⟨1, 2, false, false, none, some 128⟩)),
      .relay (.dataStream 0 .proceed), .relay (.dataStream 0 (.object none))]) :=
  sessionsStay_of_beginsWhole (by decide)

end Moqt.Relay
