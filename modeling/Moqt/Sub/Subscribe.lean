import Moqt.Wire.Arriving

/-! The subscriber's end of its request stream: the response that it waits for behind its SUBSCRIBE,
and the PUBLISH_DONE that it waits for behind that. -/

namespace Moqt.Sub

open Library Wire

/-- `String::from_utf8_lossy`.  What it puts in place of malformed bytes is left open. -/
def fromUtf8Lossy (replace : Bytes → String) (bytes : Bytes) : String :=
  match String.fromUTF8? ⟨bytes.toArray⟩ with
  | some s => s
  | none => replace bytes

/-- The reason that was given as text is the text again. -/
theorem fromUtf8Lossy_ofString (replace : Bytes → String) (s : String) :
    fromUtf8Lossy replace (ReasonPhrase.ofString s).value = s := by
  have hbytes : (⟨(ReasonPhrase.ofString s).value.toArray⟩ : ByteArray) = s.toByteArray := by
    rw [ReasonPhrase.ofString, String.toUTF8_eq_toByteArray, Array.toArray_toList]
  rw [fromUtf8Lossy, hbytes, String.fromUTF8?, dif_pos s.isValidUTF8]
  rfl

/-- `MoqtSession::subscribe` behind `write_subscribe`: the SUBSCRIBE_OK of the subscription, whose
reader is what is left of the stream. -/
def subscribe (replace : Bytes → String) : Reader SubscribeOkMessage := do
  match ← readMessage with
  | .subscribeOk ok => return ok
  | .requestError err =>
    Reader.fail (.error ("SUBSCRIBE rejected: " ++ fromUtf8Lossy replace err.reasonPhrase.value))
  | _ => Reader.fail (.error "unexpected response to SUBSCRIBE")

/-- `Subscription::recv_publish_done` -/
def recvPublishDone : Reader PublishDoneMessage := do
  match ← readMessage with
  | .publishDone done => return done
  | _ => Reader.fail (.error "expected PUBLISH_DONE")

variable {replace : Bytes → String} {frame more : Bytes} {s : ByteStream}

/-- A SUBSCRIBE_OK is awaited. -/
theorem subscribe_awaits {ok : SubscribeOkMessage}
    (h : (RequestMessage.subscribeOk ok).WithinLimits) (hencode : ok.encode = .ok frame) :
    (subscribe replace).Awaits frame ok :=
  (RequestMessage.WithinLimits.awaits h hencode).bind_silent (.pure ok)

theorem recvPublishDone_awaits {done : PublishDoneMessage}
    (h : (RequestMessage.publishDone done).WithinLimits) :
    recvPublishDone.Awaits done.encode done :=
  (RequestMessage.WithinLimits.awaits h rfl).bind_silent (.pure done)

theorem subscribe_starves (hs : s.bytes = []) : ∃ e, (subscribe replace).Fails s (.readExact e) :=
  (starves_readMessage hs).imp fun _ he => Reader.fails_bind.mpr (.inl he)

theorem recvPublishDone_starves (hs : s.bytes = []) : ∃ e, recvPublishDone.Fails s (.readExact e) :=
  (starves_readMessage hs).imp fun _ he => Reader.fails_bind.mpr (.inl he)

/-- A REQUEST_ERROR ends the wait with its reason, once it is there as a whole. -/
theorem subscribe_rejected {error : RequestErrorMessage}
    (h : (RequestMessage.requestError error).WithinLimits) (hs : s.bytes <+: error.encode ++ more) :
    (subscribe replace).Fails s
        (.error ("SUBSCRIBE rejected: " ++ fromUtf8Lossy replace error.reasonPhrase.value)) ∨
      s.bytes.length < error.encode.length ∧ ∃ e, (subscribe replace).Fails s (.readExact e) := by
  have hawaits : readMessage.Awaits error.encode (.requestError error) := h.awaits rfl
  rcases hawaits.of_front hs with ⟨t, hreturns, -⟩ | ⟨hshort, e, hfails⟩
  · exact .inl (Reader.fails_bind.mpr (.inr ⟨_, t, hreturns, Reader.fails_fail.mpr rfl⟩))
  · exact .inr ⟨hshort, e, Reader.fails_bind.mpr (.inl hfails)⟩

end Moqt.Sub
