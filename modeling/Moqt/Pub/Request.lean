import Moqt.Sub.Subscribe

/-! The publisher's end of request streams: of the one on which it registers a namespace, and of
those on which it is asked for a track. -/

namespace Moqt.Pub

open Library Wire

/-- `MoqtSession::publish_namespace` behind `write_publish_namespace`. -/
def publishNamespace (replace : Bytes → String) : Reader Unit := do
  match ← readMessage with
  | .requestOk _ => return ()
  | .requestError err =>
    Reader.fail (.error ("PUBLISH_NAMESPACE rejected: " ++
      Sub.fromUtf8Lossy replace err.reasonPhrase.value))
  | _ => Reader.fail (.error "unexpected response to PUBLISH_NAMESPACE")

/-- What `write_request_ok` writes. -/
def requestOkFrame : Bytes := encodeMessage MSG_REQUEST_OK [0]

theorem encode_requestOk (ok : RequestOkMessage) : ok.encode = .ok requestOkFrame := rfl

/-- A REQUEST_OK is awaited. -/
theorem publishNamespace_awaits (replace : Bytes → String) :
    (publishNamespace replace).Awaits requestOkFrame () := by
  have hlimits : (RequestMessage.requestOk {}).WithinLimits := by
    refine ⟨trivial, trivial, fun rp hrp => ?_, by decide⟩
    cases hrp
  exact (hlimits.awaits (encode_requestOk {})).bind_silent (.pure ())

/-! ### Subscriptions -/

def STATUS_TRACK_ENDED : UInt64 := 0x2

/-- What `SubscribeRequest::accept` writes. -/
def acceptMessage (trackAlias : UInt64) : SubscribeOkMessage where
  trackAlias
  parameters := []
  trackPropertiesRaw := []

/-- What `SubscribeRequest::send_publish_done` writes. -/
def publishDoneMessage (streamCount : UInt64) : PublishDoneMessage where
  statusCode := STATUS_TRACK_ENDED
  streamCount
  reasonPhrase := .ofString ""

end Moqt.Pub
