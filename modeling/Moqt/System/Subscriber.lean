import Moqt.System.Subscription
import Moqt.Web.Request

/-! A subscription as the browser sees it.  What the publisher answers is what the browser reads, as
long as it uses nothing that the browser has no room for; the relay's rejections are thrown. -/

namespace Moqt.System

open Library Moqt.Wire Moqt.Relay

/-- The browser reads the message as it was written. -/
def Legible : RequestMessage → Prop
  | .subscribeOk ok => ok.parameters = [] ∧ Web.Readable ok.trackAlias
  | .publishDone done => Web.Readable done.statusCode ∧ Web.Readable done.streamCount ∧
    Web.PlainText done.reasonPhrase.value
  | .publishNamespace _ | .subscribe _ | .requestOk _ | .requestError _ => True

theorem readable_toUInt64 {n : Nat} (h : n < 2 ^ 42) : Web.Readable n.toUInt64 :=
  .inl ((Web.toNat_toUInt64 (h.trans (by decide))).trans_lt h)

theorem withinLimits_accept (trackAlias : UInt64) :
    (RequestMessage.subscribeOk ⟨trackAlias, [], []⟩).WithinLimits where
  trackNamespace := trivial
  parameters := ⟨.nil, by simp⟩
  reasonPhrase _ h := by cases h
  payload := by
    have hpayload : varintSize trackAlias + parametersSize [] + blockSize [] ≤ 9 + 1 + 1 :=
      Nat.add_le_add_right (Nat.add_le_add_right (Web.varintSize_le trackAlias) _) _
    exact hpayload.trans (by decide)

theorem withinLimits_end (statusCode streamCount : UInt64) :
    (RequestMessage.publishDone ⟨statusCode, streamCount, ⟨[]⟩⟩).WithinLimits where
  trackNamespace := trivial
  parameters := trivial
  reasonPhrase := by
    rintro rp ⟨⟩
    exact Nat.zero_le _
  payload := by
    have hpayload : varintSize statusCode + varintSize streamCount + blockSize [] ≤ 9 + 9 + 1 :=
      Nat.add_le_add_right
        (Nat.add_le_add (Web.varintSize_le statusCode) (Web.varintSize_le streamCount)) _
    exact hpayload.trans (by decide)

theorem legible_end {statusCode streamCount : UInt64} (hstatus : Web.Readable statusCode)
    (hcount : Web.Readable streamCount) :
    Legible (.publishDone ⟨statusCode, streamCount, ⟨[]⟩⟩) := by
  have hempty : Web.PlainText [] := ⟨"", by decide, by decide⟩
  exact ⟨hstatus, hcount, hempty⟩

/-- A Rust publisher answers with messages that the browser reads. -/
theorem client_answers {trackAlias streamCount : UInt64} (halias : Web.Readable trackAlias)
    (hcount : Web.Readable streamCount) :
    Legible (.subscribeOk (Pub.acceptMessage trackAlias)) ∧
      Legible (.publishDone (Pub.publishDoneMessage streamCount)) := by
  have hreason : ReasonPhrase.ofString "" = ⟨[]⟩ := by decide
  rw [Pub.publishDoneMessage, hreason]
  exact ⟨⟨rfl, halias⟩, legible_end (.inl (by decide)) hcount⟩

/-- A publisher in the browser answers with messages that the relay awaits and that another browser
reads. -/
theorem browser_answers {trackAlias streamCount : Nat} (halias : trackAlias < 2 ^ 42)
    (hcount : streamCount < 2 ^ 42) :
    (Legible (.subscribeOk ⟨trackAlias.toUInt64, [], []⟩) ∧
      readMessage.Awaits (Web.acceptFrame trackAlias)
        (.subscribeOk ⟨trackAlias.toUInt64, [], []⟩)) ∧
    Legible (.publishDone ⟨0, streamCount.toUInt64, ⟨[]⟩⟩) ∧
      readMessage.Awaits (Web.publishDoneFrame streamCount)
        (.publishDone ⟨0, streamCount.toUInt64, ⟨[]⟩⟩) := by
  refine ⟨⟨⟨rfl, readable_toUInt64 halias⟩, ?_⟩,
    legible_end (.inl (by decide)) (readable_toUInt64 hcount), ?_⟩
  · exact (withinLimits_accept _).awaits (Web.encode_acceptFrame (halias.trans (by decide)))
  · rw [← Web.encode_publishDoneFrame (hcount.trans (by decide))]
    exact (withinLimits_end 0 _).awaits rfl

/-- A message that the relay awaits is one that it can read. -/
theorem read_of_awaits {frame : Bytes} {m : RequestMessage} (h : readMessage.Awaits frame m)
    (hfits : frame.length < 2 ^ 62) : m.Read := by
  have hreturns := h.takes ⟨frame, .finished, hfits⟩ { bytes := [], ending := .finished }
    ⟨(List.append_nil frame).symm, rfl⟩
  obtain ⟨bytes, s, -, hdecode⟩ := Reader.returns_bind.mp hreturns
  obtain ⟨⟨rest, hparse⟩, -⟩ := Reader.returns_decode.mp hdecode
  exact ⟨bytes, rest, hparse⟩

/-- What the browser hears of the end: what the publisher has said of it, or nothing as long as that
is not there as a whole. -/
inductive BrowserHearsEnd (replace : Bytes → String) (n : Network) (t : SubscribeTask)
    (k : RequestId) (rest : Chunked) : Prop
  | done {done : PublishDoneMessage} {msg : Web.PublishDoneMessage} {rest' : Chunked}
      (hreturns : Web.recvPublishDone replace rest = .ok (msg, rest')) (his : msg.Is done)
      (hsent : (k, RequestMessage.publishDone done) ∈ n.answers)
  | waits (hwaits : ∀ msg rest', Web.recvPublishDone replace rest ≠ .ok (msg, rest'))
      (hcut : ∀ response ∈ t.written[1]?, rest.bytes.length < response.frame.length)

/-- What the browser hears on its request stream, of which the bytes of `r` have come, in any
chunks. -/
inductive BrowserHears (replace : Bytes → String) (n : Network) (t : SubscribeTask) (r : Chunked) :
    Prop
  | accepted {k : RequestId} {ok : SubscribeOkMessage} {rest : Chunked}
      (hreturns : Web.subscribeResponse r = .ok (ok.trackAlias.toNat, rest))
      (hfilter : World.hasUnsupportedFilter t.message = false)
      (haccepts : Accepts n t.message k ok) (hend : BrowserHearsEnd replace n t k rest)
  | rejected {error : RequestErrorMessage}
      (hfails : Web.subscribeResponse r = .err "SUBSCRIBE rejected")
      (hwritten : t.written = [.requestError error]) (hrejects : Rejects t.message error)
  | waits (hwaits : ∀ trackAlias rest, Web.subscribeResponse r ≠ .ok (trackAlias, rest))
      (hcut : ∀ response ∈ t.written.head?, r.bytes.length < response.frame.length)

section Conversation

variable {replace : Bytes → String} {n : Network} {t : SubscribeTask} {r : Chunked}
variable {answer : Received SubscribeOkMessage} {more : Bytes}

/-- Behind a SUBSCRIBE_OK the browser hears the end. -/
theorem browserHears_accepted
    (hlimits : (RequestMessage.subscribeOk answer.message).WithinLimits)
    (hlegible : Legible (.subscribeOk answer.message))
    (hfilter : World.hasUnsupportedFilter t.message = false)
    (haccepts : Accepts n t.message answer.upstream answer.message)
    (hfirst : t.written.head? = some (.subscribeOk answer))
    (hr : r.bytes <+: Response.frame (.subscribeOk answer) ++ more)
    (hend : ∀ rest : Chunked, rest.bytes <+: more →
      BrowserHearsEnd replace n t answer.upstream rest) : BrowserHears replace n t r := by
  have hencode : answer.message.encode = .ok (Response.frame (.subscribeOk answer)) :=
    Response.encode_frame (.subscribeOk answer) hlimits
  have hawaits := Web.subscribeResponse_awaits hencode hlegible.1 hlimits.payload hlegible.2
  rcases hawaits.of_front hr with ⟨rest, hreturns, hrest⟩ | ⟨hshort, hwaits⟩
  · exact .accepted hreturns hfilter haccepts (hend rest hrest)
  · refine .waits hwaits ?_
    rw [hfirst]
    rintro response ⟨⟩
    exact hshort

theorem browserHears_rejected {error : RequestErrorMessage} (h : Rejects t.message error)
    (hwritten : t.written = [.requestError error])
    (hr : r.bytes <+: Response.frame (.requestError error)) : BrowserHears replace n t r := by
  rcases Web.subscribeResponse_rejected (withinLimits_of_rejects h) hr with
    hfails | ⟨hshort, hwaits⟩
  · exact .rejected hfails hwritten h
  · refine .waits hwaits ?_
    rw [hwritten]
    rintro response ⟨⟩
    exact hshort

end Conversation

/-- The browser hears what the publisher has answered for its track, as the publisher has written
it, or that the relay has rejected the SUBSCRIBE, however the bytes are cut into chunks; and as long
as the message is not there as a whole it waits. -/
theorem browser_hears_publisher (replace : Bytes → String) {ls : List NetworkLabel}
    (hends : network.Meets EndsInOrder network.init ls)
    (hread : ∀ k message, NetworkLabel.answer k message ∈ ls → message.Read)
    (hlegible : ∀ k message, NetworkLabel.answer k message ∈ ls → Legible message)
    {j : RequestId} {t : SubscribeTask} (ht : (network.run network.init ls).world.task j = some t)
    (hwrites : t.failedWrite = false) {r : Chunked}
    (hr : r.bytes <+: t.written.flatMap Response.frame) :
    BrowserHears replace (network.run network.init ls) t r := by
  have hheard := (spoken_of_endsInOrder hends).heard ht hwrites
  have hread := answers_of_run hread
  have hlegible := answers_of_run hlegible
  have hreachable := network.reachable_run ls
  have hdones := donesSent_of_reachable hreachable
  generalize network.run network.init ls = n at *
  have hok {answer : Received SubscribeOkMessage} {owner : SubscribeTask}
      (hfrom : t.OkFrom n.world answer owner) :
      (RequestMessage.subscribeOk answer.message).WithinLimits ∧
        Legible (.subscribeOk answer.message) := by
    have hmem := List.mem_of_find?_eq_some (accepts_of_owner hreachable ht hfrom).answered
    exact ⟨withinLimits_of_okFrom hfrom (hread _ hmem), hlegible _ hmem⟩
  obtain ⟨written, hwritten⟩ : ∃ written, t.written = written := ⟨_, rfl⟩
  rw [hwritten] at hr hheard
  cases hheard with
  | nothing =>
    refine .waits (fun _ _ => Web.subscribeResponse_starves (List.prefix_nil.mp hr)) ?_
    rw [hwritten]
    rintro response ⟨⟩
  | rejected hrejects => exact browserHears_rejected hrejects hwritten (by simpa using hr)
  | accepted hfrom =>
    obtain ⟨hfits, hreads⟩ := hok hfrom
    refine browserHears_accepted hfits hreads hfrom.filters (accepts_of_owner hreachable ht hfrom)
      (by rw [hwritten]; rfl) hr fun rest hrest => ?_
    refine .waits (fun _ _ => Web.recvPublishDone_starves (List.prefix_nil.mp hrest)) ?_
    rw [hwritten]
    rintro response ⟨⟩
  | @ended answer done owner hfrom hdone =>
    obtain ⟨hfits, hreads⟩ := hok hfrom
    refine browserHears_accepted hfits hreads hfrom.filters (accepts_of_owner hreachable ht hfrom)
      (by rw [hwritten]; rfl) hr fun rest hrest => ?_
    have hsent := hdones _ owner done hfrom.task hdone
    obtain ⟨hstatus, hcount, hreason⟩ := hlegible _ hsent
    obtain ⟨msg, his, hawaits⟩ :=
      Web.recvPublishDone_awaits replace (hread _ hsent).publishDone hstatus hcount hreason
    rcases hawaits.of_front hrest with ⟨rest', hreturns, -⟩ | ⟨hshort, hwaits⟩
    · exact .done hreturns his hsent
    · refine .waits hwaits ?_
      rw [hwritten]
      rintro response ⟨⟩
      exact hshort

/-- The last byte of PUBLISH_DONE has not come, and the rest in three chunks; the publisher is a
Rust client, or a browser. -/
theorem browser_hears_concluded :
    (∃ t, (network.run network.init (concluded (Pub.publishDoneMessage 0))).world.task 0 = some t ∧
      BrowserHears (fun _ => "")
        (network.run network.init (concluded (Pub.publishDoneMessage 0))) t
        { chunks := [[4, 0], [3, 7, 0, 0, 11], [0, 3, 2, 0]], ending := .finished }) ∧
    ∃ t, (network.run network.init (concluded ⟨0, 0, ⟨[]⟩⟩)).world.task 0 = some t ∧
      BrowserHears (fun _ => "") (network.run network.init (concluded ⟨0, 0, ⟨[]⟩⟩)) t
        { chunks := [[4, 0], [3, 7, 0, 0, 11], [0, 3, 0, 0]], ending := .finished } := by
  constructor
  · have hrun : ∃ t ∈ (network.run network.init
        (concluded (Pub.publishDoneMessage 0))).world.task 0, t.failedWrite = false ∧
          t.written.flatMap Response.frame = [4, 0, 3, 7, 0, 0, 11, 0, 3, 2, 0, 0] := by
      decide +kernel
    have hseven : Web.Readable 7 := .inl (by decide)
    have hzero : Web.Readable 0 := .inl (by decide)
    obtain ⟨haccept, hdone⟩ := client_answers hseven hzero
    obtain ⟨t, ht, hwrites, hwritten⟩ := hrun
    refine ⟨t, ht, browser_hears_publisher _ (by decide +kernel) read_concluded
      (answers_concluded haccept hdone) ht hwrites ?_⟩
    rw [hwritten]
    decide
  · have hrun : ∃ t ∈ (network.run network.init (concluded ⟨0, 0, ⟨[]⟩⟩)).world.task 0,
        t.failedWrite = false ∧
          t.written.flatMap Response.frame = [4, 0, 3, 7, 0, 0, 11, 0, 3, 0, 0, 0] := by
      decide +kernel
    obtain ⟨⟨haccept, hacceptFrame⟩, hdone, hdoneFrame⟩ :=
      browser_answers (show 7 < 2 ^ 42 by decide) (show 0 < 2 ^ 42 by decide)
    obtain ⟨t, ht, hwrites, hwritten⟩ := hrun
    refine ⟨t, ht, browser_hears_publisher _ (by decide +kernel)
      (answers_concluded (read_of_awaits hacceptFrame (by decide))
        (read_of_awaits hdoneFrame (by decide)))
      (answers_concluded haccept hdone) ht hwrites ?_⟩
    rw [hwritten]
    decide

end Moqt.System
