import Moqt.Library.Groups
import Moqt.Library.Program
import Moqt.Pub.Ivf
import Moqt.Wire.Object
import Moqt.Wire.SubgroupHeader

/-! The publisher in pipe mode: each keyframe starts a group, which has a stream of its own, and
each frame is an object.  The connection is a parameter; it may refuse any operation. -/

namespace Moqt.Pub

open Library Wire

/-! ### The connection -/

inductive StreamOp where
  | openUni
  | writeAll (buf : Bytes)
  | finish
deriving DecidableEq, Repr

/-- An operation, and the number of its stream. -/
structure StreamEvent where
  stream : Nat
  op : StreamOp
deriving DecidableEq, Repr

/-- The streams that have been opened, what has been done with them, and what has been refused. -/
structure Connection where
  streams : Nat
  events : List StreamEvent
  refused : List StreamEvent
deriving DecidableEq, Repr

def Connection.new : Connection := ⟨0, [], []⟩

/-- What the connection answers to an operation: an error, or that it is done.  The ID of a stream
has 62 bits, and two of them tell who has opened it and whether it is unidirectional. -/
structure Transport where
  refuses : Connection → StreamEvent → Option String
  bounded : ∀ c, 2 ^ 60 ≤ c.streams → (refuses c ⟨c.streams, .openUni⟩).isSome

abbrev Run := EStateM String Connection

variable (t : Transport)

def perform (event : StreamEvent) : Run Unit := fun c =>
  match t.refuses c event with
  | some e => .error e { c with refused := c.refused ++ [event] }
  | none => .ok () { c with events := c.events ++ [event] }

/-- `open_uni` -/
def openUni : Run Nat := do
  let c ← get
  perform t ⟨c.streams, .openUni⟩
  modify fun c => { c with streams := c.streams + 1 }
  return c.streams

/-! ### Subgroups -/

structure SubgroupWriter where
  stream : Nat
  finished : Bool
deriving DecidableEq, Repr

/-- `ObjectHeader::encode` -/
def encodeObjectHeader (header : ObjectHeader) : Bytes :=
  encodeVarint header.objectIdDelta ++ encodeVarint header.payloadLength

/-- The bytes that `DataStreamWriter::write_object` sends. -/
def objectBytes (header : ObjectHeader) (payload : Bytes) : Bytes :=
  encodeObjectHeader header ++ payload

/-- The header that `open_subgroup` makes. -/
def subgroupHeader (trackAlias groupId subgroupId : UInt64) : SubgroupHeader where
  trackAlias
  groupId
  hasProperties := false
  endOfGroup := true
  subgroupId := some subgroupId
  publisherPriority := none

/-- The header that `SubgroupWriter::write_object` makes. -/
def objectHeader (payload : Bytes) : ObjectHeader where
  objectIdDelta := 0
  payloadLength := payload.length.toUInt64

/-- `open_subgroup` and `open_data_stream` -/
def openSubgroup (trackAlias groupId subgroupId : UInt64) : Run SubgroupWriter := do
  let stream ← openUni t
  perform t ⟨stream, .writeAll (subgroupHeader trackAlias groupId subgroupId).encode⟩
  return { stream, finished := false }

namespace SubgroupWriter

def writeObject (group : SubgroupWriter) (payload : Bytes) : Run Unit :=
  perform t ⟨group.stream, .writeAll (objectBytes (objectHeader payload) payload)⟩

def finish (group : SubgroupWriter) : Run SubgroupWriter := do
  if group.finished then return group
  else
    perform t ⟨group.stream, .finish⟩
    return { group with finished := true }

/-- What is done when the writer is dropped; an error is ignored. -/
def drop (group : SubgroupWriter) (c : Connection) : Connection :=
  match group.finish t c with
  | .ok _ c => c
  | .error _ c => c

/-- `finish` on a writer that goes out of scope behind it.  When it fails, `finished` is set too, so
that dropping the writer does nothing. -/
def close (group : SubgroupWriter) : Run Unit := do
  let group ← group.finish t
  modify (group.drop t)

end SubgroupWriter

/-! ### The loop over the frames -/

/-- The variables of `send_from_stdin`. -/
structure Sender where
  groupId : UInt64
  objectId : UInt64
  currentGroup : Option SubgroupWriter
  streamCount : UInt64
  groupStarted : Bool
deriving DecidableEq, Repr

namespace Sender

def new : Sender where
  groupId := 0
  objectId := 0
  currentGroup := none
  streamCount := 0
  groupStarted := false

/-- A keyframe closes the group in front of it. -/
def closeGroup (frame : IvfFrame) (s : Sender) : Run Sender := do
  if frame.isKeyframe && s.groupStarted then
    match s.currentGroup with
    | some group => group.close t
    | none => pure ()
    return { s with
      groupId := s.groupId + 1
      objectId := 0
      currentGroup := none
      streamCount := s.streamCount + 1 }
  else return s

/-- Opens a group if there is none. -/
def openGroup (s : Sender) : Run Sender := do
  match s.currentGroup with
  | some _ => return s
  | none =>
    let group ← openSubgroup t 1 s.groupId 0
    return { s with currentGroup := some group, groupStarted := true }

/-- A failure drops the writer. -/
def writeFrame (frame : IvfFrame) (s : Sender) : Run Sender := do
  match s.currentGroup with
  | some group =>
    onError (group.writeObject t frame.data) (group.drop t)
    return { s with objectId := s.objectId + 1 }
  | none => return s

/-- A turn of the loop. -/
def step (s : Sender) (frame : IvfFrame) : Run Sender := do
  let s ← s.closeGroup t frame
  let s ← s.openGroup t
  s.writeFrame t frame

/-- What follows the loop. -/
def closeLast (s : Sender) : Run UInt64 := do
  match s.currentGroup with
  | some group =>
    group.close t
    return s.streamCount + 1
  | none => return s.streamCount

end Sender

/-- `send_from_stdin`, for the frames that come through the channel. -/
def sendFrames (frames : List IvfFrame) : Run UInt64 := do
  let s ← frames.foldlM (Sender.step t) .new
  s.closeLast t

def sendFromStdin (stdin : Bytes) : Run UInt64 := sendFrames t (readFrames stdin)

end Moqt.Pub
