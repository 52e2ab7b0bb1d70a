import Moqt.Pub.Request
import Moqt.Relay.Namespace
import Moqt.Relay.Requests
import Moqt.Web.Request

/-! A namespace as its publisher registers it.  When `publish_namespace` returns, in the browser or
in a Rust client, the relay has had the namespace in its map, for the session that has asked; and it
returns as soon as the response is there as a whole. -/

namespace Moqt.System

open Library Moqt.Wire Moqt.Relay Moqt.Pub

/-! ### Registered first -/

/-- The relay has had the namespace in its map, for the session. -/
def HasRegistered (ls : List NetworkLabel) (ns : TrackNamespace) (session : SessionId) : Prop :=
  ∃ ls₁, ls₁ <+: ls ∧
    (network.run network.init ls₁).world.state.namespaceToPublisher.lookup ns = some session

theorem HasRegistered.mono {ls : List NetworkLabel} {ns : TrackNamespace} {session : SessionId}
    (h : HasRegistered ls ns session) (l : NetworkLabel) : HasRegistered (ls ++ [l]) ns session :=
  h.imp fun _ h => ⟨h.1.trans (List.prefix_append ls [l]), h.2⟩

/-- The tasks that are past the registration have registered their namespaces. -/
def RegisteredFirst (ls : List NetworkLabel) : Prop :=
  ∀ (i : Nat) (t : PublishNamespaceTask),
    (network.run network.init ls).world.publishNamespaces[i]? = some t → t.pc ≠ .register →
      HasRegistered ls t.message.trackNamespace t.session

theorem registeredFirst (ls : List NetworkLabel) : RegisteredFirst ls := by
  refine network.history (I := RegisteredFirst) ?_ ?_ ?_ ls
  · intro i t ht
    cases ht
  · intro ls l n' ih hstep hrun i t' ht' hpc
    rw [hrun] at ht'
    rcases (NetworkStep.of_step hstep).world with ⟨l', rfl, hrelay⟩ | ⟨-, hsame⟩
    · cases (Step.of_step hrelay).namespaceOrigin ht' with
      | old ht => exact (ih i t' ht hpc).mono _
      | spawned hconn hsession hpc' => exact absurd hpc' hpc
      | registered ht hpc' hstate heq =>
        subst heq
        refine ⟨_, List.prefix_rfl, ?_⟩
        rw [hrun, hstate, RelayState.registerNamespace, Map.lookup_insert_eq, if_pos rfl]
      | @accepted t ht hpc' ok heq =>
        subst heq
        exact (ih i t ht (by rw [hpc']; decide)).mono _
    · rw [hsame] at ht'
      exact (ih i t' ht' hpc).mono _
  · intro ls l ih hskip i t ht hpc
    rw [hskip] at ht
    exact (ih i t ht hpc).mono _

/-! ### What the publisher is told -/

/-- What has come of the response of a handler: a front of REQUEST_OK, once it has written it. -/
def Responds (t : PublishNamespaceTask) (s : ByteStream) : Prop :=
  s.bytes <+: if t.pc = .returned then requestOkFrame else []

/-- What comes of a call of `publish_namespace` on what there is of the response: it returns, and
the namespace has been registered; or it does not return, as long as the response is not there as a
whole.  In the browser the bytes may have come in any chunks. -/
inductive Told (replace : Bytes → String) (ls : List NetworkLabel) (t : PublishNamespaceTask)
    (s : ByteStream) : Prop
  | returns (hbytes : s.bytes = requestOkFrame)
      (hclient : ∃ rest, (publishNamespace replace).Returns s () rest)
      (hbrowser : ∀ r : Chunked, r.bytes = s.bytes →
        ∃ r', Web.publishNamespaceResponse r = .ok ((), r'))
      (hregistered : HasRegistered ls t.message.trackNamespace t.session)
  | waits (hcut : s.bytes.length < requestOkFrame.length)
      (hclient : ∃ e, (publishNamespace replace).Fails s (.readExact e))
      (hbrowser : ∀ r r' : Chunked, r.bytes = s.bytes →
        Web.publishNamespaceResponse r ≠ .ok ((), r'))

theorem browser_awaits : Web.publishNamespaceResponse.Awaits requestOkFrame () :=
  Web.publishNamespaceResponse_awaits (Web.isFrame_encode MSG_REQUEST_OK (by decide)) (by decide)

theorem told_of_responds (replace : Bytes → String) {ls : List NetworkLabel} {i : Nat}
    {t : PublishNamespaceTask}
    (ht : (network.run network.init ls).world.publishNamespaces[i]? = some t) {s : ByteStream}
    (hs : Responds t s) : Told replace ls t s := by
  have hfront : s.bytes <+: requestOkFrame := by
    rw [Responds] at hs
    split at hs
    · exact hs
    · exact hs.trans List.nil_prefix
  rcases Nat.lt_or_ge s.bytes.length requestOkFrame.length with hcut | hwhole
  · refine .waits hcut ((publishNamespace_awaits replace).starves s hfront hcut) ?_
    intro r r' hr
    exact browser_awaits.starves r (hr ▸ hfront) (hr ▸ hcut) () r'
  · have hbytes := hfront.eq_of_length_le hwhole
    have hpc : t.pc = .returned := by
      by_contra hnot
      rw [Responds, if_neg hnot, List.prefix_nil, hbytes] at hs
      cases hs
    obtain ⟨rest, hsplits, -⟩ :=
      ByteStream.exists_splits (hbytes.trans (List.append_nil requestOkFrame).symm)
    refine .returns hbytes ⟨rest, (publishNamespace_awaits replace).takes s rest hsplits⟩ ?_ ?_
    · intro r hr
      obtain ⟨r', hok, -⟩ :=
        browser_awaits.takes r [] ((hr.trans hbytes).trans (List.append_nil requestOkFrame).symm)
      exact ⟨r', hok⟩
    · exact registeredFirst ls i t ht (by rw [hpc]; decide)

/-! ### Whose requests they are -/

/-- The stream begins with the request, as a Rust client or the browser writes it. -/
inductive Opens (content : ByteStream) : PublishNamespaceMessage → Prop
  | client {message : PublishNamespaceMessage} {frame : Bytes}
      (hlimits : (RequestMessage.publishNamespace message).WithinLimits)
      (hencode : message.encode = .ok frame) (hfront : frame <+: content.bytes) :
    Opens content message
  | browser {requestId : Nat} {ns : List String} (h : Web.Publishable requestId ns)
      (hfront : Web.publishNamespaceFrame requestId ns <+: content.bytes) :
    Opens content (Web.wireMessage requestId ns)

/-- `next_event` reads the request. -/
theorem Opens.event {content rest : ByteStream} {message : PublishNamespaceMessage}
    {event : SessionEvent} (h : Opens content message)
    (hreturns : requestEvent.Returns content event rest) : event = .publishNamespace message := by
  obtain ⟨frame, ⟨more, hmore⟩, hawaits⟩ : ∃ frame, frame <+: content.bytes ∧
      requestEvent.Awaits frame (.publishNamespace message) := by
    cases h with
    | @client _ frame hlimits hencode hfront =>
      exact ⟨frame, hfront, (hlimits.awaits hencode).bind_silent (.pure _)⟩
    | browser h hfront => exact ⟨_, hfront, h.awaits⟩
  obtain ⟨t, hsplits, -⟩ := ByteStream.exists_splits hmore.symm
  exact (hreturns.unique (hawaits.takes content t hsplits)).1

theorem publishNamespaces_of_opens {accepted waiting : List ByteStream}
    {events : List SessionEvent} {messages : List PublishNamespaceMessage}
    (hread : List.Forall₂ (fun content event => ∃ rest, requestEvent.Returns content event rest)
      accepted events) (hopens : List.Forall₂ Opens (accepted ++ waiting) messages) :
    events.filterMap SessionEvent.publishNamespace? <+: messages := by
  induction hread generalizing messages with
  | nil => exact List.nil_prefix
  | @cons content event accepted events hfirst hread ih =>
    rw [List.cons_append, List.forall₂_cons_left_iff] at hopens
    obtain ⟨message, messages, hopen, hopens, rfl⟩ := hopens
    obtain ⟨rest, hreturns⟩ := hfirst
    rw [hopen.event hreturns]
    exact List.cons_prefix_cons.mpr ⟨rfl, ih hopens⟩

/-- The tasks of a session that handle a PUBLISH_NAMESPACE. -/
def handlers (w : World) (c : SessionId) : List PublishNamespaceTask :=
  w.publishNamespaces.filter (·.session = c)

theorem messages_handlers (w : World) (c : SessionId) :
    (handlers w c).map (·.message) = callsFor c w.namespaceCalls := by
  rw [handlers, callsFor, World.namespaceCalls]
  induction w.publishNamespaces with
  | nil => rfl
  | cons t ts ih =>
    by_cases hc : t.session = c
    · simp [hc, ih]
    · simp [hc, ih]

/-- The handlers of a publisher are those of its requests, in their order; and each of its calls is
told of its own namespace, once this has been registered for the session. -/
theorem registers_inTurn (replace : Bytes → String) {ls : List NetworkLabel} {c : ConnectionId}
    {messages : List PublishNamespaceMessage}
    (hopens : List.Forall₂ Opens ((observed.run observed.init ls).2 c).bi messages) {j : Nat}
    {t : PublishNamespaceTask}
    (ht : (handlers (network.run network.init ls).world c)[j]? = some t) {s : ByteStream}
    (hs : Responds t s) : messages[j]? = some t.message ∧ t.session = c ∧ Told replace ls t s := by
  have hsame : (observed.run observed.init ls).1 = network.run network.init ls :=
    Machine.withHistory_run _ ls
  obtain ⟨accepted, events, hbi, hread, -, hcalls⟩ := (serves_inTurn ls c).requests
  rw [hsame] at hbi hcalls
  rw [hbi] at hopens
  have hfront := publishNamespaces_of_opens hread hopens
  rw [← hcalls, ← messages_handlers] at hfront
  obtain ⟨more, rfl⟩ := hfront
  obtain ⟨hmem, hsession⟩ := List.mem_filter.mp (List.mem_of_getElem? ht)
  obtain ⟨i, hi⟩ := List.mem_iff_getElem?.mp hmem
  refine ⟨?_, of_decide_eq_true hsession, told_of_responds replace hi hs⟩
  have hmessage : ((handlers (network.run network.init ls).world c).map (·.message))[j]? =
      some t.message := by
    rw [List.getElem?_map, ht]
    rfl
  rw [List.getElem?_append_left (List.getElem?_eq_some_iff.mp hmessage).1, hmessage]

/-- A session registers a namespace as a Rust client does, and one as the browser does. -/
def registeredBoth : List NetworkLabel :=
  NetworkLabel.relay .connect :: Schedule.publish 0 0 ++
    [.openBi 0 { bytes := Web.publishNamespaceFrame 2 ["b"], ending := .finished },
      .relay (.event 0 (.publishNamespace (Web.wireMessage 2 ["b"]))),
      .relay (.publishNamespace 1 .proceed), .relay (.publishNamespace 1 (.wrote true))]

theorem opens_registeredBoth :
    List.Forall₂ Opens ((observed.run observed.init registeredBoth).2 0).bi
      [⟨0, 0, ⟨[[1]]⟩⟩, Web.wireMessage 2 ["b"]] := by
  have hbi : ((observed.run observed.init registeredBoth).2 0).bi =
      [{ bytes := [6, 0, 6, 0, 0, 1, 1, 1, 0], ending := .finished },
        { bytes := Web.publishNamespaceFrame 2 ["b"], ending := .finished }] := by decide +kernel
  have hlimits : (RequestMessage.publishNamespace ⟨0, 0, ⟨[[1]]⟩⟩).WithinLimits := by
    refine ⟨⟨by decide, by decide⟩, trivial, fun rp hrp => ?_, by decide⟩
    cases hrp
  have hpublishable : Web.Publishable 2 ["b"] :=
    ⟨by decide, by decide, by decide +kernel, by decide +kernel⟩
  rw [hbi]
  refine .cons (.client hlimits rfl List.prefix_rfl) (.cons ?_ .nil)
  exact .browser hpublishable List.prefix_rfl

theorem registers_inTurn_both : ∃ t,
    (handlers (network.run network.init registeredBoth).world 0)[1]? = some t ∧
      t.message = Web.wireMessage 2 ["b"] ∧ Told (fun _ => "") registeredBoth t
        { bytes := [7, 0, 1, 0], ending := .finished } := by
  have hrun : ∃ t ∈ (handlers (network.run network.init registeredBoth).world 0)[1]?,
      t.pc = .returned := by decide +kernel
  obtain ⟨t, ht, hpc⟩ := hrun
  have hs : Responds t { bytes := [7, 0, 1, 0], ending := .finished } := by
    rw [Responds, if_pos hpc]
    decide
  obtain ⟨hmessage, -, htold⟩ := registers_inTurn (fun _ => "") opens_registeredBoth ht hs
  exact ⟨t, ht, (Option.some.inj hmessage).symm, htold⟩

end Moqt.System
