import Moqt.Relay.Network

/-! The objects of a data stream, and the steps of the task that reads them.  The objects that have
been read are the first ones of the stream, byte for byte. -/

namespace Moqt.Relay

open Library Wire

/-! ### Objects and their bytes -/

namespace RawObject

def bytes (o : RawObject) : Bytes := o.headerBytes ++ o.payload

/-- The object is as `read_object` reads objects. -/
def Framed (hasProperties : Bool) (o : RawObject) : Prop :=
  ∃ header, HeaderFormat hasProperties header o.headerBytes ∧
    o.payload.length = header.payloadLength.toNat

theorem Framed.returns {hasProperties : Bool} {o : RawObject} {s t : ByteStream}
    (h : o.Framed hasProperties) (hsplit : s.Splits o.bytes t) :
    ∃ header, (readObject hasProperties).Returns s (some (header, o.payload, o.headerBytes)) t := by
  obtain ⟨header, hformat, hlen⟩ := h
  exact ⟨header, returns_readObject.mpr ⟨hformat, hlen, hsplit⟩⟩

theorem Framed.bytes_ne_nil {hasProperties : Bool} {o : RawObject} (h : o.Framed hasProperties) :
    o.bytes ≠ [] := by
  obtain ⟨header, hformat, -⟩ := h
  simp [bytes, hformat.ne_nil]

/-- The first object of a stream is known from the stream. -/
theorem Framed.unique {hasProperties : Bool} {o o' : RawObject} {s t t' : ByteStream}
    (h : o.Framed hasProperties) (h' : o'.Framed hasProperties) (hsplit : s.Splits o.bytes t)
    (hsplit' : s.Splits o'.bytes t') : o = o' ∧ t = t' := by
  obtain ⟨header, hreturns⟩ := h.returns hsplit
  obtain ⟨header', hreturns'⟩ := h'.returns hsplit'
  obtain ⟨heq, rfl⟩ := hreturns.unique hreturns'
  simp only [Option.some.injEq, Prod.mk.injEq] at heq
  obtain ⟨-, hpayload, hheader⟩ := heq
  cases o
  cases o'
  exact ⟨by simp only [RawObject.mk.injEq]; exact ⟨hheader, hpayload⟩, rfl⟩

/-- Of two lists of objects that a stream begins with one is the front of the other; where it is not
the second one, an object of it comes next. -/
theorem front_or_next {hasProperties : Bool} {taken objects : List RawObject}
    {body rest rest' : ByteStream} (htaken : ∀ o ∈ taken, o.Framed hasProperties)
    (hobjects : ∀ o ∈ objects, o.Framed hasProperties)
    (hsplit : body.Splits (taken.flatMap bytes) rest)
    (hsplit' : body.Splits (objects.flatMap bytes) rest') :
    objects <+: taken ∨ ∃ o more rest'', o.Framed hasProperties ∧ objects = taken ++ o :: more ∧
      rest.Splits o.bytes rest'' := by
  induction taken generalizing objects body with
  | nil =>
    cases objects with
    | nil => exact .inl (List.prefix_refl _)
    | cons o more =>
      obtain ⟨mid, hfirst, -⟩ := ByteStream.splits_append.mp hsplit'
      obtain ⟨-, rfl⟩ := (ByteStream.Splits.refl body).unique hsplit rfl
      exact .inr ⟨o, more, mid, hobjects o List.mem_cons_self, rfl, hfirst⟩
  | cons o taken ih =>
    cases objects with
    | nil => exact .inl (List.nil_prefix)
    | cons o' objects =>
      rw [List.forall_mem_cons] at htaken hobjects
      obtain ⟨mid, hfirst, hrest⟩ := ByteStream.splits_append.mp hsplit
      obtain ⟨mid', hfirst', hrest'⟩ := ByteStream.splits_append.mp hsplit'
      obtain ⟨rfl, rfl⟩ := htaken.1.unique hobjects.1 hfirst hfirst'
      rcases ih htaken.2 hobjects.2 hrest hrest' with
        hfront | ⟨o₁, more, rest'', hframed, rfl, hnext⟩
      · exact .inl (List.cons_prefix_cons.mpr ⟨rfl, hfront⟩)
      · exact .inr ⟨o₁, more, rest'', hframed, rfl, hnext⟩

/-- What has been taken of a list of objects is the front of the list. -/
theorem eq_append_of_splits {hasProperties : Bool} {taken objects : List RawObject}
    {body rest : ByteStream} (htaken : ∀ o ∈ taken, o.Framed hasProperties)
    (hobjects : ∀ o ∈ objects, o.Framed hasProperties)
    (hsplit : body.Splits (taken.flatMap bytes) rest) (hbody : body.bytes = objects.flatMap bytes) :
    ∃ more, objects = taken ++ more ∧ rest.bytes = more.flatMap bytes := by
  obtain ⟨rest', hsplit', -⟩ := ByteStream.exists_splits (hbody.trans (List.append_nil _).symm)
  rcases front_or_next htaken hobjects hsplit hsplit' with ⟨extra, rfl⟩ | ⟨o, more, -, -, rfl, -⟩
  · -- there is nothing that more could have been taken from
    have hnil : extra.flatMap bytes ++ rest.bytes = [] := by
      have hbytes := hsplit.1.symm.trans hbody
      rwa [List.flatMap_append, List.append_assoc, List.append_right_eq_self] at hbytes
    obtain ⟨hextra, hrest⟩ := List.append_eq_nil_iff.mp hnil
    cases extra with
    | nil => exact ⟨[], by simp, hrest⟩
    | cons o extra =>
      have hframed := htaken o (by simp)
      exact absurd (List.append_eq_nil_iff.mp hextra).1 hframed.bytes_ne_nil
  · refine ⟨o :: more, rfl, ?_⟩
    have hbytes := hsplit.1.symm.trans hbody
    rwa [List.flatMap_append, List.append_right_inj] at hbytes

end RawObject

namespace DataReader

/-- The results of a read: an object, which is taken from the front, the end, or a failure. -/
theorem read_cases (reader : DataReader) :
    (∃ o rest, o.Framed reader.hasProperties ∧ reader.rest.Splits o.bytes rest ∧
      reader.read = (some (some o), { reader with rest, taken := reader.taken ++ [o] })) ∨
    (reader.read = (some none, reader) ∧
      ∃ t, (readObject reader.hasProperties).Returns reader.rest none t) ∨
    (reader.read = (none, reader) ∧
      ∃ e, (readObject reader.hasProperties).Fails reader.rest e) := by
  unfold read
  split
  next header payload headerBytes rest h =>
    obtain ⟨hformat, hlen, hsplit⟩ := returns_readObject.mp h
    exact .inl ⟨⟨headerBytes, payload⟩, rest, ⟨header, hformat, hlen⟩, hsplit, rfl⟩
  next t h => exact .inr (.inl ⟨rfl, t, h⟩)
  next e h => exact .inr (.inr ⟨rfl, e, h⟩)

theorem taken_read {reader : DataReader} {o : RawObject} (h : reader.read.1 = some (some o)) :
    reader.read.2.taken = reader.taken ++ [o] := by
  rcases reader.read_cases with ⟨o', rest, -, -, hread⟩ | ⟨hread, -⟩ | ⟨hread, -⟩
  · rw [hread] at h ⊢
    simp only [Option.some.injEq] at h
    rw [h]
  · rw [hread] at h
    cases h
  · rw [hread] at h
    cases h

/-- At the end, and after a failure, the reader stays where it is. -/
theorem read_stays {reader : DataReader} (h : ∀ o, reader.read.1 ≠ some (some o)) :
    reader.read.2 = reader := by
  rcases reader.read_cases with ⟨o, rest, -, -, hread⟩ | ⟨hread, -⟩ | ⟨hread, -⟩
  · exact absurd (by rw [hread]) (h o)
  · rw [hread]
  · rw [hread]

/-- What is read is known from what is left. -/
theorem read_congr {reader reader' : DataReader}
    (hproperties : reader'.hasProperties = reader.hasProperties)
    (hrest : reader'.rest = reader.rest) : reader'.read.1 = reader.read.1 := by
  simp only [read, hproperties, hrest]
  split <;> rfl

/-- A read is none of the writers' business. -/
theorem read_writers (reader : DataReader) : reader.read.2.subSessions = reader.subSessions ∧
    reader.read.2.opens = reader.opens ∧ reader.read.2.failed = reader.failed := by
  unfold read
  split <;> exact ⟨rfl, rfl, rfl⟩

theorem read_of_framed {reader : DataReader} {o : RawObject} {rest : ByteStream}
    (h : o.Framed reader.hasProperties) (hsplit : reader.rest.Splits o.bytes rest) :
    reader.read.1 = some (some o) := by
  obtain ⟨header, hreturns⟩ := h.returns hsplit
  unfold read
  rw [show readObject _ _ = _ from hreturns]

end DataReader

/-! ### What a task has read -/

/-- What the reader has behind it, and in front. -/
structure Reads (t : DataStreamTask) (reader : DataReader) : Prop where
  properties : reader.hasProperties = t.header.hasProperties
  header : ∃ content, readSubgroupHeader.Returns content (t.header, reader.headerBytes) reader.body
  taken : ∀ o ∈ reader.taken, o.Framed reader.hasProperties
  rest : reader.body.Splits (reader.taken.flatMap RawObject.bytes) reader.rest

namespace DataReader

variable {reader reader' : DataReader} {w : World} {t t' : DataStreamTask} {input : Input}

/-- Writers have no part in what is read. -/
theorem observe_reads (reader : DataReader) (w : World) (t : DataStreamTask) (input : Input) :
    (reader.observe w t input).hasProperties = reader.hasProperties ∧
      (reader.observe w t input).headerBytes = reader.headerBytes ∧
      (reader.observe w t input).body = reader.body ∧
      (reader.observe w t input).rest = reader.rest ∧
      (reader.observe w t input).taken = reader.taken := by
  unfold observe
  split <;> exact ⟨rfl, rfl, rfl, rfl, rfl⟩

theorem Moves.taken (h : reader.Moves w t input reader') : reader.taken <+: reader'.taken := by
  cases h with
  | object =>
    rcases reader.read_cases with ⟨o, rest, -, -, hread⟩ | ⟨hread, -⟩ | ⟨hread, -⟩
    · rw [hread]
      exact List.prefix_append _ _
    · rw [hread]
    · rw [hread]
  | observe =>
    obtain ⟨-, -, -, -, htaken⟩ := reader.observe_reads w t input
    rw [htaken]

theorem Moves.eq_read {read : Option (Option RawObject)}
    (h : reader.Moves w t (.object read) reader') :
    read = reader.read.1 ∧ reader' = reader.read.2 := by
  cases h with
  | object => exact ⟨rfl, rfl⟩
  | observe hinput => exact absurd rfl (hinput read)

theorem Moves.eq_observe (h : reader.Moves w t input reader')
    (hinput : ∀ read, input ≠ .object read) : reader' = reader.observe w t input := by
  cases h with
  | object => exact absurd rfl (hinput _)
  | observe => rfl

theorem Moves.reads (h : reader.Moves w t input reader') (hreads : Reads t reader)
    (hheader : t'.header = t.header) : Reads t' reader' := by
  obtain ⟨hproperties, hheaderBytes, htaken, hrest⟩ := hreads
  rw [← hheader] at hproperties hheaderBytes
  cases h with
  | object =>
    rcases reader.read_cases with ⟨o, rest, hframed, hsplit, hread⟩ | ⟨hread, -⟩ | ⟨hread, -⟩
    · rw [hread]
      refine ⟨hproperties, hheaderBytes, ?_, ?_⟩
      · exact List.forall_mem_append.mpr ⟨htaken, List.forall_mem_singleton.mpr hframed⟩
      · rw [List.flatMap_append]
        exact hrest.trans (by simpa using hsplit)
    · rw [hread]
      exact ⟨hproperties, hheaderBytes, htaken, hrest⟩
    · rw [hread]
      exact ⟨hproperties, hheaderBytes, htaken, hrest⟩
  | observe =>
    obtain ⟨h₁, h₂, h₃, h₄, h₅⟩ := reader.observe_reads w t input
    exact ⟨h₁ ▸ hproperties, by rw [h₂, h₃]; exact hheaderBytes, by rw [h₁, h₅]; exact htaken,
      by rw [h₃, h₄, h₅]; exact hrest⟩

end DataReader

/-! ### The steps of a task -/

/-- The task with one stream more. -/
def withStream (t : DataStreamTask) (s : StreamId) (todo : List MoqtSession) : DataStreamTask :=
  { t with
    pc := .openStreams todo, activeWriters := t.activeWriters ++ [s], opened := t.opened ++ [s] }

/-- A step of a task, with what it makes of the task, of its reader and of the streams. -/
inductive Advance (w : World) (t : DataStreamTask) (reader : DataReader) :
    Input → DataStreamTask → DataReader → List Downstream → Prop
  | lookup (hpc : t.pc = .lookup) {sessions : List MoqtSession}
      (hsessions : sessions = w.state.findSubscriberSessions t.senderSession t.header.trackAlias) :
    Advance w t reader .proceed
      { t with pc := if sessions.isEmpty then .drain else .openStreams sessions }
      { reader with subSessions := sessions } w.streams
  | drained (hpc : t.pc = .drain) {object : RawObject}
      (hread : reader.read.1 = some (some object)) :
    Advance w t reader (.object (some (some object))) t reader.read.2 w.streams
  | drainEnd (hpc : t.pc = .drain) :
    Advance w t reader (.object reader.read.1) { t with pc := .returned } reader.read.2 w.streams
  | openStream {session : MoqtSession} {todo : List MoqtSession}
      (hpc : t.pc = .openStreams (session :: todo)) :
    Advance w t reader (.opened true) (withStream t w.streams.length todo)
      { reader with opens := reader.opens ++ [true] }
      (w.streams ++ [⟨session, t.header, [], false⟩])
  | skipStream {session : MoqtSession} {todo : List MoqtSession}
      (hpc : t.pc = .openStreams (session :: todo)) :
    Advance w t reader (.opened false) { t with pc := .openStreams todo }
      { reader with opens := reader.opens ++ [false] } w.streams
  | allOpened (hpc : t.pc = .openStreams []) :
    Advance w t reader .proceed { t with pc := .readObject } reader w.streams
  | readFailed (hpc : t.pc = .readObject) (hread : reader.read.1 = none) :
    Advance w t reader (.object none) { t with pc := .dropWriters t.activeWriters } reader
      w.streams
  | readEnd (hpc : t.pc = .readObject) (hread : reader.read.1 = some none) :
    Advance w t reader (.object (some none)) { t with pc := .finish t.activeWriters } reader
      w.streams
  | readObject (hpc : t.pc = .readObject) {object : RawObject}
      (hread : reader.read.1 = some (some object)) :
    Advance w t reader (.object (some (some object)))
      { t with pc := .writeObject object t.activeWriters [] } reader.read.2 w.streams
  | wroteObject {object : RawObject} {s : StreamId} {todo stillActive : List StreamId}
      (hpc : t.pc = .writeObject object (s :: todo) stillActive) :
    Advance w t reader (.wrote true)
      { t with pc := .writeObject object todo (stillActive ++ [s]) } reader
      (w.streams.modify s fun d => { d with objects := d.objects ++ [object] })
  | lostWriter {object : RawObject} {s : StreamId} {todo stillActive : List StreamId}
      (hpc : t.pc = .writeObject object (s :: todo) stillActive) :
    Advance w t reader (.wrote false) { t with pc := .writeObject object todo stillActive }
      { reader with failed := reader.failed ++ [s] } w.streams
  | objectWritten {object : RawObject} {stillActive : List StreamId}
      (hpc : t.pc = .writeObject object [] stillActive) :
    Advance w t reader .proceed { t with pc := .readObject, activeWriters := stillActive } reader
      w.streams
  | finished {s : StreamId} {todo : List StreamId} (hpc : t.pc = .finish (s :: todo)) :
    Advance w t reader (.wrote true) { t with pc := .finish todo } reader
      (w.streams.modify s fun d => { d with finished := true })
  | unfinished {s : StreamId} {todo : List StreamId} (hpc : t.pc = .finish (s :: todo)) :
    Advance w t reader (.wrote false) { t with pc := .finish todo }
      { reader with failed := reader.failed ++ [s] } w.streams
  | allFinished (hpc : t.pc = .finish []) :
    Advance w t reader .proceed { t with pc := .returned } reader w.streams
  | dropped {s : StreamId} {todo : List StreamId} (hpc : t.pc = .dropWriters (s :: todo)) :
    Advance w t reader (.wrote true) { t with pc := .dropWriters todo } reader
      (w.streams.modify s fun d => { d with finished := true })
  | droppedDead {s : StreamId} {todo : List StreamId} (hpc : t.pc = .dropWriters (s :: todo)) :
    Advance w t reader (.wrote false) { t with pc := .dropWriters todo } reader w.streams
  | allDropped (hpc : t.pc = .dropWriters []) :
    Advance w t reader .proceed { t with pc := .returned } reader w.streams

section Advance

variable {w w' : World} {i : Nat} {t t' : DataStreamTask} {reader reader' : DataReader}
  {input : Input} {streams' : List Downstream}

/-- The reader is told of every step of its task. -/
theorem DataStreamStep.advance (h : DataStreamStep w i t input w')
    (ht : w.dataStreams[i]? = some t) (ht' : w'.dataStreams[i]? = some t')
    (hmoves : reader.Moves w t input reader') :
    Advance w t reader input t' reader' w'.streams := by
  have stay (f : DataStreamTask → DataStreamTask) := World.updateData_self f ht
  cases h with
  | lookup hpc hfree hsessions =>
    obtain rfl := Option.mem_unique ht' (stay _)
    rw [hmoves.eq_observe (by simp)]
    simp only [DataReader.observe, hpc, ← hsessions]
    exact .lookup hpc hsessions
  | drained hpc object =>
    obtain rfl := Option.mem_unique ht' ht
    obtain ⟨hread, rfl⟩ := hmoves.eq_read
    exact .drained hpc hread.symm
  | drainEnd hpc read =>
    obtain rfl := Option.mem_unique ht' (stay _)
    obtain ⟨rfl, rfl⟩ := hmoves.eq_read
    exact .drainEnd hpc
  | @openStream session todo hpc =>
    obtain rfl : t' = withStream t w.streams.length todo := by
      refine Option.mem_unique ht' ((World.updateData_self _ (stay _)).trans ?_)
      simp [withStream, World.gotoData, World.updateData]
    rw [hmoves.eq_observe (by simp)]
    simp only [DataReader.observe, hpc]
    exact .openStream hpc
  | readFailed hpc =>
    obtain rfl := Option.mem_unique ht' (stay _)
    obtain ⟨hread, rfl⟩ := hmoves.eq_read
    rw [reader.read_stays (by simp [← hread])]
    exact .readFailed hpc hread.symm
  | readEnd hpc =>
    obtain rfl := Option.mem_unique ht' (stay _)
    obtain ⟨hread, rfl⟩ := hmoves.eq_read
    rw [reader.read_stays (by simp [← hread])]
    exact .readEnd hpc hread.symm
  | readObject hpc object =>
    obtain rfl := Option.mem_unique ht' (stay _)
    obtain ⟨hread, rfl⟩ := hmoves.eq_read
    exact .readObject hpc hread.symm
  | allDropped hpc =>
    obtain rfl := Option.mem_unique ht' (stay _)
    rw [hmoves.eq_observe (by simp)]
    simp only [DataReader.observe, hpc]
    exact .allDropped hpc
  | _ hpc =>
    obtain rfl := Option.mem_unique ht' (stay _)
    rw [hmoves.eq_observe (by simp)]
    simp only [DataReader.observe, hpc]
    constructor
    exact hpc

end Advance

end Moqt.Relay
