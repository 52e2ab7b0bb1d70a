import Moqt.Library.History
import Moqt.Relay.NextGroup
import Moqt.Relay.Progress

/-! What peers have asked for.  Each stream that a peer has opened waits for `next_event`, or has
been accepted; for what was read from it then one task has been spawned, in the order of the
streams, and there is no task besides. -/

namespace Moqt.Relay

open Library Wire

/-! ### What has been opened -/

/-- The streams that the peer of a connection has opened. -/
structure PeerStreams where
  bi : List ByteStream := []
  uni : List ByteStream := []
deriving DecidableEq, Repr

def PeerStreams.note (_ : Network) (opened : ConnectionId → PeerStreams) :
    NetworkLabel → ConnectionId → PeerStreams
  | .openBi c content => Function.update opened c
      { opened c with bi := (opened c).bi ++ [content] }
  | .openUni c content => Function.update opened c
      { opened c with uni := (opened c).uni ++ [content] }
  | .close _ | .answer _ _ | .relay _ => opened

/-- The network with what its peers have opened. -/
def observed : Machine (Network × (ConnectionId → PeerStreams)) NetworkLabel :=
  network.withHistory (fun _ => {}) PeerStreams.note

/-- The link of a connection, which is empty before it is accepted. -/
def Network.link (n : Network) (c : ConnectionId) : Link := (n.links[c]?).getD {}

/-! ### What tasks have been spawned for -/

namespace World

def subscribeCalls (w : World) : List (SessionId × SubscribeMessage) :=
  w.subscribes.map fun t => (t.session, t.message)

def namespaceCalls (w : World) : List (SessionId × PublishNamespaceMessage) :=
  w.publishNamespaces.map fun t => (t.session, t.message)

def streamCalls (w : World) : List (SessionId × SubgroupHeader) :=
  w.dataStreams.map fun t => (t.senderSession, t.header)

end World

/-- Those for one session. -/
def callsFor {α : Type} (c : SessionId) (calls : List (SessionId × α)) : List α :=
  calls.filterMap fun call => if call.1 = c then some call.2 else none

def SessionEvent.subscribe? : SessionEvent → Option SubscribeMessage
  | .subscribe message => some message
  | .publishNamespace _ | .dataStream _ => none

def SessionEvent.publishNamespace? : SessionEvent → Option PublishNamespaceMessage
  | .publishNamespace message => some message
  | .subscribe _ | .dataStream _ => none

/-- The streams of the connection `c` are waiting, or have been accepted, with one task each. -/
structure Serves (n : Network) (opened : PeerStreams) (c : ConnectionId) : Prop where
  requests : ∃ accepted events, opened.bi = accepted ++ (n.link c).bi ∧
    List.Forall₂ (fun content event => ∃ rest, requestEvent.Returns content event rest)
      accepted events ∧
    callsFor c n.world.subscribeCalls = events.filterMap SessionEvent.subscribe? ∧
    callsFor c n.world.namespaceCalls = events.filterMap SessionEvent.publishNamespace?
  streams : ∃ accepted, opened.uni = accepted ++ (n.link c).uni.map UniStream.content ∧
    List.Forall₂ (fun content header => ∃ headerBytes body,
      readSubgroupHeader.Returns content (header, headerBytes) body)
      accepted (callsFor c n.world.streamCalls)

/-! ### Steps -/

theorem callsFor_append {α : Type} (c : SessionId) (calls calls' : List (SessionId × α)) :
    callsFor c (calls ++ calls') = callsFor c calls ++ callsFor c calls' :=
  List.filterMap_append

theorem callsFor_self {α : Type} (c : SessionId) (a : α) : callsFor c [(c, a)] = [a] := by
  simp [callsFor]

theorem callsFor_other {α : Type} {c d : SessionId} (h : d ≠ c) (a : α) :
    callsFor c [(d, a)] = [] := by
  simp [callsFor, h]

/-- Nothing is spawned. -/
structure SameCalls (w w' : World) : Prop where
  subscribes : w'.subscribeCalls = w.subscribeCalls
  namespaces : w'.namespaceCalls = w.namespaceCalls
  streams : w'.streamCalls = w.streamCalls

theorem SameCalls.refl (w : World) : SameCalls w w := ⟨rfl, rfl, rfl⟩

/-- A table whose entries keep what `g` says of them. -/
theorem map_eq_of_getElem? {α β : Type} {g : α → β} {as as' : List α}
    (h : ∀ i : Nat, (as'[i]?).map g = (as[i]?).map g) : as'.map g = as.map g := by
  refine List.ext_getElem? fun i => ?_
  rw [List.getElem?_map, List.getElem?_map]
  exact h i

theorem SubscribeStep.sameCalls {w w' : World} {k : RequestId} {t : SubscribeTask} {input : Input}
    (h : SubscribeStep w k t input w') (ht : w.task k = some t) : SameCalls w w' where
  subscribes := by
    refine map_eq_of_getElem? fun j => ?_
    change (w'.task j).map _ = (w.task j).map _
    cases hj : w.task j with
    | none => rw [h.absent hj]
    | some u =>
      obtain ⟨u', hu'⟩ := (Step.subscribe ht h).after hj
      have hkept := (Step.subscribe ht h).task j
      rw [hj, hu'] at hkept
      rw [hu', Option.map_some, Option.map_some, hkept.session, hkept.message]
  namespaces := by cases h <;> rfl
  streams := by cases h <;> rfl

theorem DataStreamStep.sameCalls {w w' : World} {i : Nat} {t : DataStreamTask} {input : Input}
    (h : DataStreamStep w i t input w') (ht : w.dataStreams[i]? = some t) : SameCalls w w' where
  subscribes := by
    rw [h.frame]
    rfl
  namespaces := by
    rw [h.frame]
    rfl
  streams := by
    refine map_eq_of_getElem? fun j => ?_
    by_cases hj : j = i
    · subst hj
      obtain ⟨t', ht', hmove⟩ := h.move ht
      rw [ht, ht', Option.map_some, Option.map_some, hmove.senderSession, hmove.header]
    · cases hu : w.dataStreams[j]? with
      | some u => rw [h.other hj hu]
      | none =>
        rw [List.getElem?_eq_none_iff] at hu
        rw [List.getElem?_eq_none_iff.mpr (h.length ▸ hu)]

/-- A step spawns a task for the event that it is told of, or none. -/
theorem Step.calls {w w' : World} {l : Label} (h : Step w l w') :
    (∃ c conn event, l = .event c event ∧ w.connections[c]? = some conn ∧
        w' = w.spawn conn.sessionId event) ∨
      (∀ c event, l ≠ .event c event) ∧ SameCalls w w' := by
  have updated (state : RelayState) (i : Nat) (f : PublishNamespaceTask → PublishNamespaceTask)
      (hf : ∀ t, ((f t).session, (f t).message) = (t.session, t.message)) :
      SameCalls w ((w.setState state).updateNamespace i f) := by
    refine ⟨rfl, map_eq_of_getElem? fun j => ?_, rfl⟩
    rw [World.updateNamespace, List.getElem?_modify, World.setState]
    cases w.publishNamespaces[j]? with
    | none => rfl
    | some t =>
      split
      · exact congrArg some (hf t)
      · rfl
  cases h with
  | event hconn hstatus event => exact .inl ⟨_, _, event, rfl, hconn, rfl⟩
  | subscribe ht h => exact .inr ⟨by simp, h.sameCalls ht⟩
  | dataStream ht h => exact .inr ⟨by simp, h.sameCalls ht⟩
  | register ht hpc hfree => exact .inr ⟨by simp, updated _ _ _ (by intro; rfl)⟩
  | accept ht hpc ok => exact .inr ⟨by simp, updated w.state _ _ (by intro; rfl)⟩
  | _ => exact .inr ⟨by simp, ⟨rfl, rfl, rfl⟩⟩

theorem World.subscribeCalls_spawn (w : World) (id : SessionId) (message : SubscribeMessage) :
    (w.spawn id (.subscribe message)).subscribeCalls = w.subscribeCalls ++ [(id, message)] := by
  simp [subscribeCalls, spawn]

theorem World.namespaceCalls_spawn (w : World) (id : SessionId)
    (message : PublishNamespaceMessage) :
    (w.spawn id (.publishNamespace message)).namespaceCalls =
      w.namespaceCalls ++ [(id, message)] := by
  simp [namespaceCalls, spawn]

theorem World.streamCalls_spawn (w : World) (id : SessionId) (header : SubgroupHeader) :
    (w.spawn id (.dataStream header)).streamCalls = w.streamCalls ++ [(id, header)] := by
  simp [streamCalls, spawn]

/-! ### Runs -/

section Links

variable {n : Network} {c d : ConnectionId} {link : Link}

theorem Network.link_of_getElem? (h : n.links[c]? = some link) : n.link c = link := by
  rw [Network.link, h]
  rfl

theorem Network.link_updateLink (h : n.links[c]? = some link) (f : Link → Link) :
    (n.updateLink c f).link d = if d = c then f link else n.link d := by
  rw [Network.link, Network.updateLink, List.getElem?_modify]
  split
  next heq =>
    subst heq
    rw [h, if_pos rfl]
    rfl
  next hne =>
    rw [if_neg (Ne.symm hne), id_map']
    rfl

theorem Network.link_connect :
    ({ n with links := n.links ++ [{}] } : Network).link d = n.link d := by
  rw [Network.link, Network.link]
  rcases Nat.lt_trichotomy d n.links.length with hd | hd | hd
  · rw [List.getElem?_append_left hd]
  · simp [hd]
  · simp [hd.le, List.getElem?_append_right hd.le, Nat.sub_ne_zero_of_lt hd]

end Links

namespace Serves

variable {n n' : Network} {c : ConnectionId} {peer : PeerStreams}

theorem new (c : ConnectionId) : Serves .new {} c where
  requests := ⟨[], [], rfl, .nil, rfl, rfl⟩
  streams := ⟨[], rfl, .nil⟩

theorem same (h : Serves n peer c)
    (hlink : (n'.link c).bi = (n.link c).bi ∧ (n'.link c).uni = (n.link c).uni)
    (hcalls : SameCalls n.world n'.world) : Serves n' peer c where
  requests := by
    rw [hlink.1, hcalls.subscribes, hcalls.namespaces]
    exact h.requests
  streams := by
    rw [hlink.2, hcalls.streams]
    exact h.streams

theorem openBi (h : Serves n peer c) (content : ByteStream)
    (hlink : n'.link c = { n.link c with bi := (n.link c).bi ++ [content] })
    (hworld : n'.world = n.world) :
    Serves n' { peer with bi := peer.bi ++ [content] } c where
  requests := by
    obtain ⟨accepted, events, hbi, hcalls⟩ := h.requests
    refine ⟨accepted, events, ?_, hworld ▸ hcalls⟩
    rw [hlink, hbi, List.append_assoc]
  streams := by
    rw [hlink, hworld]
    exact h.streams

theorem openUni (h : Serves n peer c) (stream : UniStream)
    (hlink : n'.link c = { n.link c with uni := (n.link c).uni ++ [stream] })
    (hworld : n'.world = n.world) :
    Serves n' { peer with uni := peer.uni ++ [stream.content] } c where
  requests := by
    rw [hlink, hworld]
    exact h.requests
  streams := by
    obtain ⟨accepted, huni, hheaders⟩ := h.streams
    refine ⟨accepted, ?_, hworld ▸ hheaders⟩
    rw [hlink, huni, List.map_append, List.append_assoc]
    rfl

/-- `next_event` accepts a stream of the connection. -/
theorem accept (h : Serves n peer c) {event : SessionEvent} {link' : Link}
    {readers : List DataReader} (haccepts : (n.link c).Accepts c event link' readers)
    (hlink : n'.link c = link') (hworld : n'.world = n.world.spawn c event) :
    Serves n' peer c := by
  obtain ⟨accepted, events, hbi, hread, hsubscribes, hnamespaces⟩ := h.requests
  obtain ⟨streams, huni, hheaders⟩ := h.streams
  generalize n.link c = link at *
  cases haccepts with
  | @request _ stream rest bi hfront hreturns =>
    have hnext : peer.bi = (accepted ++ [stream]) ++ (n'.link c).bi := by
      rw [hbi, hfront, hlink, List.append_assoc]
      rfl
    have hread' : List.Forall₂ (fun content event => ∃ rest,
        requestEvent.Returns content event rest) (accepted ++ [stream]) (events ++ [event]) :=
      List.rel_append hread (.cons ⟨rest, hreturns⟩ .nil)
    constructor
    · refine ⟨accepted ++ [stream], events ++ [event], hnext, hread', ?_, ?_⟩
      · rw [hworld, List.filterMap_append, ← hsubscribes]
        cases event with
        | subscribe message =>
          rw [World.subscribeCalls_spawn, callsFor_append, callsFor_self]
          rfl
        | _ => exact (List.append_nil _).symm
      · rw [hworld, List.filterMap_append, ← hnamespaces]
        cases event with
        | publishNamespace message =>
          rw [World.namespaceCalls_spawn, callsFor_append, callsFor_self]
          rfl
        | _ => exact (List.append_nil _).symm
    · rw [hlink, hworld]
      refine ⟨streams, huni, ?_⟩
      cases event with
      | dataStream header => exact absurd hreturns requestEvent_ne_dataStream
      | _ => exact hheaders
  | @dataStream header stream uni headerBytes body hfront hreturns =>
    constructor
    · rw [hlink, hworld]
      exact ⟨accepted, events, hbi, hread, hsubscribes, hnamespaces⟩
    · refine ⟨streams ++ [stream.content], ?_, ?_⟩
      · rw [huni, hfront, hlink, List.append_assoc]
        rfl
      · rw [hworld, World.streamCalls_spawn, callsFor_append, callsFor_self]
        exact List.rel_append hheaders (.cons ⟨headerBytes, body, hreturns⟩ .nil)

/-- For another connection nothing is spawned. -/
theorem other (h : Serves n peer c) {d : ConnectionId} {event : SessionEvent} (hne : d ≠ c)
    (hlink : n'.link c = n.link c) (hworld : n'.world = n.world.spawn d event) :
    Serves n' peer c where
  requests := by
    rw [hlink, hworld]
    obtain ⟨accepted, events, hbi, hread, hsubscribes, hnamespaces⟩ := h.requests
    refine ⟨accepted, events, hbi, hread, ?_, ?_⟩
    · rw [← hsubscribes]
      cases event with
      | subscribe message =>
        rw [World.subscribeCalls_spawn, callsFor_append, callsFor_other hne, List.append_nil]
      | _ => rfl
    · rw [← hnamespaces]
      cases event with
      | publishNamespace message =>
        rw [World.namespaceCalls_spawn, callsFor_append, callsFor_other hne, List.append_nil]
      | _ => rfl
  streams := by
    rw [hlink, hworld]
    obtain ⟨accepted, huni, hheaders⟩ := h.streams
    refine ⟨accepted, huni, ?_⟩
    cases event with
    | dataStream header =>
      rwa [World.streamCalls_spawn, callsFor_append, callsFor_other hne, List.append_nil]
    | _ => exact hheaders

end Serves

theorem NetworkStep.serves {n n' : Network} {l : NetworkLabel} (hstep : NetworkStep n l n')
    (hnumbered : Numbered n.world) {peers : ConnectionId → PeerStreams}
    (h : ∀ c, Serves n (peers c) c) (c : ConnectionId) :
    Serves n' (PeerStreams.note n peers l c) c := by
  cases hstep with
  | @openBi d link hlink hopen content =>
    by_cases hc : c = d
    · subst hc
      rw [PeerStreams.note, Function.update_self]
      refine (h c).openBi content ?_ rfl
      rw [Network.link_updateLink hlink, if_pos rfl, Network.link_of_getElem? hlink]
    · rw [PeerStreams.note, Function.update_of_ne hc]
      refine (h c).same ?_ (.refl _)
      rw [Network.link_updateLink hlink, if_neg hc]
      exact ⟨rfl, rfl⟩
  | @openUni d link hlink hopen content =>
    by_cases hc : c = d
    · subst hc
      rw [PeerStreams.note, Function.update_self]
      refine (h c).openUni ⟨content, n.answers⟩ ?_ rfl
      rw [Network.link_updateLink hlink, if_pos rfl, Network.link_of_getElem? hlink]
    · rw [PeerStreams.note, Function.update_of_ne hc]
      refine (h c).same ?_ (.refl _)
      rw [Network.link_updateLink hlink, if_neg hc]
      exact ⟨rfl, rfl⟩
  | @close d link hlink hopen =>
    refine (h c).same ?_ (.refl _)
    rw [Network.link_updateLink hlink]
    split
    next heq =>
      subst heq
      rw [Network.link_of_getElem? hlink]
      exact ⟨rfl, rfl⟩
    · exact ⟨rfl, rfl⟩
  | answer ht hsent message => exact (h c).same ⟨rfl, rfl⟩ (.refl _)
  | @relay l n₁ world hdelivers hstep =>
    rcases (Step.of_step hstep).calls with
      ⟨d, conn, event, rfl, hconn, rfl⟩ | ⟨hother, hcalls⟩
    · cases hdelivers with
      | @event _ _ link link' readers hlink haccepts =>
        rw [hnumbered.sessionId d conn hconn]
        have hnext := Network.link_updateLink (d := c) hlink fun _ => link'
        by_cases hc : c = d
        · subst hc
          rw [if_pos rfl] at hnext
          rw [← Network.link_of_getElem? hlink] at haccepts
          exact (h c).accept haccepts hnext rfl
        · rw [if_neg hc] at hnext
          exact (h c).other (Ne.symm hc) hnext rfl
    · refine (h c).same ?_ hcalls
      cases hdelivers with
      | connect =>
        have hnext : ({ n with links := n.links ++ [{}] } : Network).link c = n.link c :=
          Network.link_connect
        exact ⟨congrArg Link.bi hnext, congrArg Link.uni hnext⟩
      | event => exact absurd rfl (hother _ _)
      | _ => exact ⟨rfl, rfl⟩

/-- Nothing that a peer asks for is lost, done twice or overtaken: in every run, the streams of a
connection wait in their order, or have been accepted in it, with one task for each. -/
theorem serves_inTurn (ls : List NetworkLabel) (c : ConnectionId) :
    Serves (observed.run observed.init ls).1 ((observed.run observed.init ls).2 c) c := by
  have hall : ∀ c, Serves (observed.run observed.init ls).1
      ((observed.run observed.init ls).2 c) c := by
    refine (observed.reachable_run ls).induction (I := fun x => ∀ c, Serves x.1 (x.2 c) c) .new ?_
    rintro x l x' hx hserves hstep
    obtain ⟨hstep, hnote⟩ := Machine.withHistory_step.mp hstep
    have hknown := known_of_reachable (reachable_world (Machine.Reachable.of_withHistory hx))
    intro c
    rw [hnote]
    exact (NetworkStep.of_step hstep).serves hknown.numbered hserves c
  exact hall c

end Moqt.Relay
