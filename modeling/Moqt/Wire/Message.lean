import Moqt.Wire.Parameter

/-! Control messages: the frame of type, 16-bit length and payload, the messages, and the parser of
request streams. -/

namespace Moqt.Wire

open Library

def MSG_SUBSCRIBE : UInt64 := 0x03
def MSG_SUBSCRIBE_OK : UInt64 := 0x04
def MSG_REQUEST_ERROR : UInt64 := 0x05
def MSG_PUBLISH_NAMESPACE : UInt64 := 0x06
def MSG_REQUEST_OK : UInt64 := 0x07
def MSG_PUBLISH_DONE : UInt64 := 0x0B
def MSG_SETUP : UInt64 := 0x2F00

/-! ### Frames -/

/-- The length is cast to 16 bits, whatever the payload's length is. -/
def encodeMessage (msgType : UInt64) (payload : Bytes) : Bytes :=
  let len := payload.length.toUInt16
  encodeVarint msgType ++ [(len >>> 8).toUInt8, len.toUInt8] ++ payload

def decodeMessage : Decoder (UInt64 × Bytes) := do
  let msgType ← decodeVarint
  Decoder.ensureLen 2 fun _ => "need 2 bytes for message length"
  let lenBytes ← Decoder.slice 2
  let len := lenBytes.foldl (fun n byte => n * 256 + byte.toNat) 0
  Decoder.advance 2
  Decoder.ensureLen len fun have_ => s!"need {len} bytes for message payload, have {have_}"
  let payload ← Decoder.slice len
  Decoder.advance len
  return (msgType, payload)

/-- The part that the messages' decoders share: the frame, the check of its type, and a decoder for
the payload, which may leave bytes of it unread. -/
def decodeFrame {α : Type} (expected : UInt64) (name : String) (fields : Decoder α) :
    Decoder α := do
  let (msgType, payload) ← decodeMessage
  Decoder.ensure (msgType == expected)
    s!"expected {name} (0x{upperHex expected}), got 0x{upperHex msgType}"
  let (message, _) ← Decoder.onSlice payload fields
  return message

/-- A length-prefixed byte string, as in a track name. -/
def decodeBytes (truncated : String) : Decoder Bytes := do
  let len := (← decodeVarint).toNat
  Decoder.ensureLen len fun _ => truncated
  let bytes ← Decoder.slice len
  Decoder.advance len
  return bytes

/-! ### SETUP -/

def OPTION_PATH : UInt64 := 0x01
def OPTION_AUTHORITY : UInt64 := 0x05

inductive SetupOption where
  | path (value : Bytes)
  | authority (value : Bytes)
  | unknown (typeId : UInt64) (value : KvValue)
deriving DecidableEq, Repr

structure SetupMessage where
  setupOptions : List SetupOption
deriving DecidableEq, Repr

def SetupOption.toKeyValuePair : SetupOption → KeyValuePair
  | .path v => ⟨OPTION_PATH, .bytes v⟩
  | .authority v => ⟨OPTION_AUTHORITY, .bytes v⟩
  | .unknown typeId value => ⟨typeId, value⟩

def SetupOption.ofKeyValuePair (kv : KeyValuePair) : SetupOption :=
  if kv.typeId == OPTION_PATH then
    match kv.value with
    | .bytes v => .path v
    | _ => .unknown kv.typeId kv.value
  else if kv.typeId == OPTION_AUTHORITY then
    match kv.value with
    | .bytes v => .authority v
    | _ => .unknown kv.typeId kv.value
  else .unknown kv.typeId kv.value

def SetupMessage.encode (m : SetupMessage) : Outcome Bytes := do
  let payload ← encodeKeyValuePairs (m.setupOptions.map SetupOption.toKeyValuePair)
  return encodeMessage MSG_SETUP payload

def SetupMessage.decode : Decoder SetupMessage :=
  decodeFrame MSG_SETUP "SETUP" do
    let kvs ← decodeKeyValuePairs
    return ⟨kvs.map SetupOption.ofKeyValuePair⟩

/-! ### Requests -/

structure SubscribeMessage where
  requestId : UInt64
  requiredRequestIdDelta : UInt64
  trackNamespace : TrackNamespace
  trackName : Bytes
  parameters : List MessageParameter
deriving DecidableEq, Repr

def SubscribeMessage.encode (m : SubscribeMessage) : Outcome Bytes := do
  let trackNamespace ← encodeTrackNamespace m.trackNamespace
  let parameters ← encodeParameters m.parameters
  return encodeMessage MSG_SUBSCRIBE
    (encodeVarint m.requestId ++ encodeVarint m.requiredRequestIdDelta ++ trackNamespace ++
      encodeVarint m.trackName.length.toUInt64 ++ m.trackName ++ parameters)

def SubscribeMessage.decode : Decoder SubscribeMessage :=
  decodeFrame MSG_SUBSCRIBE "SUBSCRIBE" do
    let requestId ← decodeVarint
    let requiredRequestIdDelta ← decodeVarint
    let trackNamespace ← decodeTrackNamespace
    let trackName ← decodeBytes "track name truncated"
    let parameters ← decodeParameters
    return { requestId, requiredRequestIdDelta, trackNamespace, trackName, parameters }

structure PublishNamespaceMessage where
  requestId : UInt64
  requiredRequestIdDelta : UInt64
  trackNamespace : TrackNamespace
deriving DecidableEq, Repr

def PublishNamespaceMessage.encode (m : PublishNamespaceMessage) : Outcome Bytes := do
  let trackNamespace ← encodeTrackNamespace m.trackNamespace
  let parameters ← encodeParameters []
  return encodeMessage MSG_PUBLISH_NAMESPACE
    (encodeVarint m.requestId ++ encodeVarint m.requiredRequestIdDelta ++ trackNamespace ++
      parameters)

def PublishNamespaceMessage.decode : Decoder PublishNamespaceMessage :=
  decodeFrame MSG_PUBLISH_NAMESPACE "PUBLISH_NAMESPACE" do
    let requestId ← decodeVarint
    let requiredRequestIdDelta ← decodeVarint
    let trackNamespace ← decodeTrackNamespace
    let _ ← decodeParameters
    return { requestId, requiredRequestIdDelta, trackNamespace }

/-! ### Responses -/

structure SubscribeOkMessage where
  trackAlias : UInt64
  parameters : List MessageParameter
  trackPropertiesRaw : Bytes
deriving DecidableEq, Repr

def SubscribeOkMessage.encode (m : SubscribeOkMessage) : Outcome Bytes := do
  let parameters ← encodeParameters m.parameters
  return encodeMessage MSG_SUBSCRIBE_OK
    (encodeVarint m.trackAlias ++ parameters ++ encodeVarint m.trackPropertiesRaw.length.toUInt64 ++
      m.trackPropertiesRaw)

def SubscribeOkMessage.decode : Decoder SubscribeOkMessage :=
  decodeFrame MSG_SUBSCRIBE_OK "SUBSCRIBE_OK" do
    let trackAlias ← decodeVarint
    let parameters ← decodeParameters
    let propsLen := (← decodeVarint).toNat
    Decoder.ensureLen propsLen fun _ => "track properties truncated"
    let trackPropertiesRaw ← Decoder.slice propsLen
    return { trackAlias, parameters, trackPropertiesRaw }

structure RequestOkMessage where
deriving DecidableEq, Repr

def RequestOkMessage.encode (_ : RequestOkMessage) : Outcome Bytes :=
  match encodeParameters [] with
  | .ok payload => return encodeMessage MSG_REQUEST_OK payload
  | _ => .panic "empty params never fail"

def RequestOkMessage.decode : Decoder RequestOkMessage :=
  decodeFrame MSG_REQUEST_OK "REQUEST_OK" do
    let _ ← decodeParameters
    return {}

def ERROR_NOT_SUPPORTED : UInt64 := 0x3
def ERROR_DOES_NOT_EXIST : UInt64 := 0x10

structure RequestErrorMessage where
  errorCode : UInt64
  retryInterval : UInt64
  reasonPhrase : ReasonPhrase
deriving DecidableEq, Repr

def RequestErrorMessage.encode (m : RequestErrorMessage) : Bytes :=
  encodeMessage MSG_REQUEST_ERROR
    (encodeVarint m.errorCode ++ encodeVarint m.retryInterval ++ encodeReasonPhrase m.reasonPhrase)

def RequestErrorMessage.decode : Decoder RequestErrorMessage :=
  decodeFrame MSG_REQUEST_ERROR "REQUEST_ERROR" do
    let errorCode ← decodeVarint
    let retryInterval ← decodeVarint
    let reasonPhrase ← decodeReasonPhrase
    return { errorCode, retryInterval, reasonPhrase }

structure PublishDoneMessage where
  statusCode : UInt64
  streamCount : UInt64
  reasonPhrase : ReasonPhrase
deriving DecidableEq, Repr

def PublishDoneMessage.encode (m : PublishDoneMessage) : Bytes :=
  encodeMessage MSG_PUBLISH_DONE
    (encodeVarint m.statusCode ++ encodeVarint m.streamCount ++ encodeReasonPhrase m.reasonPhrase)

def PublishDoneMessage.decode : Decoder PublishDoneMessage :=
  decodeFrame MSG_PUBLISH_DONE "PUBLISH_DONE" do
    let statusCode ← decodeVarint
    let streamCount ← decodeVarint
    let reasonPhrase ← decodeReasonPhrase
    return { statusCode, streamCount, reasonPhrase }

/-! ### Request streams -/

inductive RequestMessage where
  | publishNamespace (message : PublishNamespaceMessage)
  | subscribe (message : SubscribeMessage)
  | subscribeOk (message : SubscribeOkMessage)
  | requestOk (message : RequestOkMessage)
  | requestError (message : RequestErrorMessage)
  | publishDone (message : PublishDoneMessage)
deriving DecidableEq, Repr

/-- The decoder that `parse_request_message` picks for a message type. -/
def decodeRequest (msgType : UInt64) : Decoder RequestMessage := do
  if msgType == MSG_PUBLISH_NAMESPACE then
    return .publishNamespace (← PublishNamespaceMessage.decode)
  else if msgType == MSG_SUBSCRIBE then
    return .subscribe (← SubscribeMessage.decode)
  else if msgType == MSG_SUBSCRIBE_OK then
    return .subscribeOk (← SubscribeOkMessage.decode)
  else if msgType == MSG_REQUEST_OK then
    return .requestOk (← RequestOkMessage.decode)
  else if msgType == MSG_REQUEST_ERROR then
    return .requestError (← RequestErrorMessage.decode)
  else if msgType == MSG_PUBLISH_DONE then
    return .publishDone (← PublishDoneMessage.decode)
  else
    Decoder.bail s!"unknown request message type: 0x{upperHex msgType}"

/-- `parse_request_message`: the type is read once to choose the decoder, which reads it again. -/
def parseRequestMessage : Decoder RequestMessage := fun bytes =>
  (do
    let (msgType, _) ← Decoder.onSlice bytes decodeVarint
    decodeRequest msgType : Decoder RequestMessage) bytes

end Moqt.Wire
