import Moqt.Relay.Relaying

/-! The relay of a whole stream.  A task comes to its end, whatever its writers meet, and by then
every stream to a subscriber on which nothing has failed is the stream of the publisher. -/

namespace Moqt.Relay

open Library Wire

/-! ### Turns -/

/-- What the next step of a task is told, if a stream is opened, or a write ends, as `ok` says. -/
def DataStreamTask.turn (t : DataStreamTask) (reader : DataReader) (ok : Bool) : Input :=
  match t.pc with
  | .openStreams (_ :: _) => .opened ok
  | .writeObject _ (_ :: _) _ | .finish (_ :: _) | .dropWriters (_ :: _) => .wrote ok
  | .drain | .readObject => .object reader.read.1
  | _ => .proceed

/-- The label of the next step of the task `i`. -/
def Network.turn (i : Nat) (n : Network) (ok : Bool) : NetworkLabel :=
  .relay (.dataStream i (match n.world.dataStreams[i]?, n.readers[i]? with
    | some t, some reader => t.turn reader ok
    | _, _ => .proceed))

/-- How many steps the task has to take at most. -/
def DataReader.work (reader : DataReader) (w : World) (t : DataStreamTask) : Nat :=
  let left := reader.rest.bytes.length + 1
  match t.pc with
  | .lookup =>
    let found := (w.state.findSubscriberSessions t.senderSession t.header.trackAlias).length
    left * (found + 2) + found + 2
  | .drain => left
  | .openStreams todo => left * (t.activeWriters.length + todo.length + 2) + todo.length + 1
  | .readObject => left * (t.activeWriters.length + 2)
  | .writeObject _ todo stillActive =>
    left * (stillActive.length + todo.length + 2) + todo.length + 1
  | .finish todo | .dropWriters todo => todo.length + 1
  | .returned => 0

/-- The mutex of the state is only waited for in front of the lookup. -/
def World.LetsTurn (w : World) (t : DataStreamTask) : Prop := t.pc = .lookup → w.stateGuard = none

instance (w : World) (t : DataStreamTask) : Decidable (w.LetsTurn t) :=
  inferInstanceAs (Decidable (_ → _))

theorem World.exists_turn {w : World} {i : Nat} {t : DataStreamTask}
    (ht : w.dataStreams[i]? = some t) (hpc : t.pc ≠ .returned) (hfree : w.LetsTurn t)
    (reader : DataReader) (ok : Bool) : ∃ w', w.dataStream i (t.turn reader ok) = some w' := by
  rw [← Option.isSome_iff_exists]
  unfold dataStream DataStreamTask.turn
  rw [ht]
  cases h : t.pc with
  | lookup => simp [h, hfree h]
  | drain => rcases reader.read.1 with _ | _ | o <;> simp [h]
  | openStreams todo => cases todo <;> simp [h]
  | readObject => rcases reader.read.1 with _ | _ | o <;> simp [h]
  | writeObject object todo stillActive => cases todo <;> cases ok <;> simp [h]
  | finish todo | dropWriters todo => cases todo <;> simp [h]
  | returned => exact absurd h hpc

theorem DataStreamTask.turn_object {t : DataStreamTask} {reader : DataReader} {ok : Bool}
    {read : Option (Option RawObject)} (h : t.turn reader ok = .object read) :
    read = reader.read.1 := by
  unfold turn at h
  split at h
  all_goals first | exact (Input.object.inj h).symm | cases h

/-- The network lets a task do what the task can do. -/
theorem Network.exists_turn {n : Network} {i : Nat} {t : DataStreamTask} {reader : DataReader}
    (ht : n.world.dataStreams[i]? = some t) (hreader : n.readers[i]? = some reader)
    (hpc : t.pc ≠ .returned) (hfree : n.world.LetsTurn t) (ok : Bool) :
    ∃ n', network.step n (n.turn i ok) = some n' := by
  obtain ⟨w', hworld⟩ := World.exists_turn ht hpc hfree reader ok
  have hrelay (n₁ : Network) (hn₁ : n₁.world = n.world) :
      Relay.relay.step n₁.world (.dataStream i (t.turn reader ok)) = some w' := by
    rw [hn₁]
    exact hworld
  show ∃ n', n.step (.relay (.dataStream i _)) = some n'
  rw [ht, hreader]
  unfold Network.step
  simp only
  cases hturn : t.turn reader ok with
  | object read =>
    rw [hturn] at hrelay
    obtain rfl := DataStreamTask.turn_object hturn
    simp [deliver, hreader, hrelay, updateReader]
  | _ =>
    rw [hturn] at hrelay
    simp [deliver, ht, hreader, hrelay, updateReader]

/-- An object takes bytes from what is left. -/
theorem DataReader.length_read {reader : DataReader} {o : RawObject}
    (h : reader.read.1 = some (some o)) :
    reader.read.2.rest.bytes.length < reader.rest.bytes.length := by
  rcases reader.read_cases with ⟨o', rest, hframed, hsplit, hread⟩ | ⟨hread, -⟩ | ⟨hread, -⟩
  · have hpos := List.length_pos_iff.mpr hframed.bytes_ne_nil
    rw [hread, hsplit.1, List.length_append]
    show rest.bytes.length < _
    omega
  · rw [hread] at h
    cases h
  · rw [hread] at h
    cases h

section Advance

variable {w : World} {t t' : DataStreamTask} {reader reader' : DataReader} {input : Input}
  {streams' : List Downstream}

theorem Advance.work_lt (h : Advance w t reader input t' reader' streams')
    (hphase : Phase w.streams t reader) (w' : World) : reader'.work w' t' < reader.work w t := by
  cases h with
  | @lookup hpc sessions hsessions =>
    rw [Phase, hpc] at hphase
    simp only [DataReader.work, hpc, ← hsessions]
    cases sessions with
    | nil => simp; omega
    | cons session sessions => simp [hphase.active]
  | drained hpc hread =>
    have hlt := DataReader.length_read hread
    simp only [DataReader.work, hpc]
    omega
  | @openStream session todo hpc =>
    have hlen : t.activeWriters.length + 1 + todo.length =
        t.activeWriters.length + (todo.length + 1) := by omega
    simp [DataReader.work, withStream, hpc, hlen]
  | skipStream hpc =>
    simp only [DataReader.work, hpc, List.length_cons]
    gcongr <;> omega
  | readFailed hpc hread | readEnd hpc hread =>
    simp only [DataReader.work, hpc, Nat.add_mul]
    omega
  | readObject hpc hread =>
    have hle := Nat.mul_le_mul_right (t.activeWriters.length + 2) (DataReader.length_read hread)
    simp only [DataReader.work, hpc, List.length_nil, Nat.zero_add, Nat.succ_eq_add_one,
      Nat.add_mul] at hle ⊢
    omega
  | @wroteObject object s todo stillActive hpc =>
    have hlen : stillActive.length + 1 + todo.length = stillActive.length + (todo.length + 1) := by
      omega
    simp [DataReader.work, hpc, hlen]
  | lostWriter hpc =>
    simp only [DataReader.work, hpc, List.length_cons]
    gcongr <;> omega
  | _ hpc => simp [DataReader.work, hpc]

theorem Advance.pc_ne_lookup (h : Advance w t reader input t' reader' streams') :
    t'.pc ≠ .lookup := by
  cases h with
  | @lookup hpc sessions hsessions => cases sessions <;> exact nofun
  | drained hpc => simp [hpc]
  | _ => exact nofun

end Advance

theorem DataStreamStep.returned {w w' : World} {i : Nat} {t : DataStreamTask} {input : Input}
    (h : DataStreamStep w i t input w') : t.pc ≠ .returned := by
  cases h <;> simp [*]

/-- The task `i` has returned. -/
def Network.Returned (n : Network) (i : Nat) : Prop :=
  ∃ t, n.world.dataStreams[i]? = some t ∧ t.pc = .returned

/-- A task that has returned takes no more steps. -/
theorem NetworkStep.returned {n n' : Network} {l : NetworkLabel} {i : Nat}
    (h : NetworkStep n l n') (hreturned : n.Returned i) : n'.Returned i := by
  obtain ⟨t, ht, hpc⟩ := hreturned
  cases h.dataChange with
  | same hstreams hdata hreaders => exact ⟨t, by rw [hdata, ht], hpc⟩
  | accepted hl hlink hstream hconn hread hstreams hdata hreaders =>
    exact ⟨t, by rw [hdata]; exact Table.getElem?_concat.mpr (.inl ht), hpc⟩
  | @moved j u reader reader' input hl hu hreader hstep hmoves hreaders =>
    refine ⟨t, hstep.other ?_ ht, hpc⟩
    rintro rfl
    obtain rfl := Option.mem_unique ht hu
    exact hstep.returned hpc

/-- A turn of a task does some of its work. -/
theorem Forwarding.turn {n n' : Network} {i : Nat} {t : DataStreamTask} {reader : DataReader}
    {ok : Bool} (h : Forwarding n) (ht : n.world.dataStreams[i]? = some t)
    (hreader : n.readers[i]? = some reader) (hstep : NetworkStep n (n.turn i ok) n') :
    ∃ t' reader', n'.world.dataStreams[i]? = some t' ∧ n'.readers[i]? = some reader' ∧
      t'.pc ≠ .lookup ∧ reader'.work n'.world t' < reader.work n.world t := by
  have hlabel : n.turn i ok = .relay (.dataStream i (t.turn reader ok)) := by
    rw [Network.turn, ht, hreader]
  rw [hlabel] at hstep
  obtain ⟨t₀, reader₀, reader', ht₀, hreader₀, hdata, hmoves, hreaders⟩ := hstep.moved
  obtain rfl := Option.mem_unique ht ht₀
  obtain rfl := Option.mem_unique hreader hreader₀
  have hrelaying := h.relaying i t reader ht hreader
  obtain ⟨t', ht', -⟩ := hdata.move ht
  have hadvance := hdata.advance ht ht' hmoves
  refine ⟨t', reader', ht', ?_, hadvance.pc_ne_lookup, hadvance.work_lt hrelaying.phase _⟩
  rw [hreaders]
  exact Table.getElem?_modify.mpr ⟨reader, hreader, by rw [if_pos rfl]⟩

/-- A task returns after as many of its steps as it has work. -/
theorem Network.returned_of_turns {n : Network} {i : Nat} {t : DataStreamTask}
    {reader : DataReader} (h : Forwarding n) (ht : n.world.dataStreams[i]? = some t)
    (hreader : n.readers[i]? = some reader) (hfree : n.world.LetsTurn t) {oks : List Bool}
    (hwork : reader.work n.world t ≤ oks.length) :
    (network.follow (turn i) n oks).Returned i := by
  let work (n : Network) : Nat :=
    match n.world.dataStreams[i]?, n.readers[i]? with
    | some t, some reader => reader.work n.world t
    | _, _ => 0
  refine Machine.follow_done (I := fun n => Forwarding n ∧ ∃ t reader,
    n.world.dataStreams[i]? = some t ∧ n.readers[i]? = some reader ∧ n.world.LetsTurn t)
    (D := fun n => n.Returned i) work ?_ ?_ ⟨h, t, reader, ht, hreader, hfree⟩ ?_
  · rintro n ok ⟨h, t, reader, ht, hreader, hfree⟩ hnot
    obtain ⟨n', hn'⟩ := exists_turn ht hreader (fun hpc => hnot ⟨t, ht, hpc⟩) hfree ok
    have hstep := NetworkStep.of_step hn'
    obtain ⟨t', reader', ht', hreader', hpc', hlt⟩ := h.turn ht hreader hstep
    refine ⟨n', hn', ⟨h.step hstep, t', reader', ht', hreader', fun hpc => absurd hpc hpc'⟩, ?_⟩
    simpa only [work, ht, hreader, ht', hreader'] using hlt
  · intro n ok hreturned
    cases hn' : network.step n (turn i n ok) with
    | some n' =>
      rw [Machine.next_of_step hn']
      exact (NetworkStep.of_step hn').returned hreturned
    | none => rwa [Machine.next_of_none hn']
  · simpa only [work, ht, hreader] using hwork

/-! ### Streams that stay as they are -/

theorem DataReader.Moves.failed {reader reader' : DataReader} {w : World} {t : DataStreamTask}
    {input : Input} (h : reader.Moves w t input reader') : reader.failed ⊆ reader'.failed := by
  cases h with
  | object =>
    rw [reader.read_writers.2.2]
    exact List.Subset.refl _
  | observe =>
    unfold DataReader.observe
    split
    all_goals first | exact List.Subset.refl _ | exact List.subset_append_left _ _

/-- The task writes nothing more to the stream: a write to it has failed, or the task has
returned. -/
def Settled (n : Network) (i : Nat) (s : StreamId) : Prop :=
  ∃ t reader, n.world.dataStreams[i]? = some t ∧ n.readers[i]? = some reader ∧ s ∈ t.opened ∧
    (s ∈ reader.failed ∨ t.pc = .returned)

theorem Settled.step {n n' : Network} {l : NetworkLabel} {i : Nat} {s : StreamId} {d : Downstream}
    (h : Settled n i s) (hforwarding : Forwarding n) (hd : n.world.streams[s]? = some d)
    (hstep : NetworkStep n l n') : Settled n' i s ∧ n'.world.streams[s]? = some d := by
  obtain ⟨t, reader, ht, hreader, hs, hor⟩ := h
  cases hstep.dataChange with
  | same hstreams hdata hreaders =>
    exact ⟨⟨t, reader, by rw [hdata, ht], by rw [hreaders, hreader], hs, hor⟩, by rw [hstreams, hd]⟩
  | accepted hl hlink hstream hconn hread hstreams hdata hreaders =>
    refine ⟨⟨t, reader, ?_, ?_, hs, hor⟩, by rw [hstreams, hd]⟩
    · rw [hdata]
      exact Table.getElem?_concat.mpr (.inl ht)
    · rw [hreaders]
      exact Table.getElem?_concat.mpr (.inl hreader)
  | @moved j u reader₀ reader' input hl hu hreader₀ hdata hmoves hreaders =>
    have hrelaying := hforwarding.relaying j u reader₀ hu hreader₀
    obtain ⟨u', hu', -, htouches⟩ := hrelaying.step hu hdata hmoves
    by_cases hne : i = j
    · subst hne
      obtain rfl := Option.mem_unique ht hu
      obtain rfl := Option.mem_unique hreader hreader₀
      have hfailed : s ∈ reader.failed := hor.resolve_right hdata.returned
      obtain ⟨u₀, hu₀, hmove⟩ := hdata.move ht
      obtain rfl := Option.mem_unique hu' hu₀
      refine ⟨⟨u', reader', hu', ?_, hmove.opened hs, .inl (hmoves.failed hfailed)⟩,
        htouches.others s d hd (.inr hfailed)⟩
      rw [hreaders]
      exact Table.getElem?_modify.mpr ⟨reader, hreader, by rw [if_pos rfl]⟩
    · have hother : s ∉ u.opened := fun hs' => hne (hforwarding.apart i j t u s ht hu hs hs')
      refine ⟨⟨t, reader, hdata.other hne ht, ?_, hs, hor⟩, htouches.others s d hd (.inl hother)⟩
      rw [hreaders]
      exact Table.getElem?_modify.mpr ⟨reader, hreader, by rw [if_neg hne]⟩

/-- Nothing is written to a settled stream, in any run. -/
theorem Settled.run {n : Network} {i : Nat} {s : StreamId} {d : Downstream} (h : Settled n i s)
    (hforwarding : Forwarding n) (hd : n.world.streams[s]? = some d) (ls : List NetworkLabel) :
    (network.run n ls).world.streams[s]? = some d := by
  have hkeeps := Machine.keeps (M := network) (P := fun _ _ => True)
    (I := fun n => Forwarding n ∧ Settled n i s ∧ n.world.streams[s]? = some d)
    (fun n l n' hn _ hstep => ?_) ⟨hforwarding, h, hd⟩ (Machine.meets_true n ls)
  · exact hkeeps.2.2
  · have hstep := NetworkStep.of_step hstep
    exact ⟨hn.1.step hstep, hn.2.1.step hn.1 hn.2.2 hstep⟩

/-! ### The stream that a subscriber gets -/

/-- The bytes that have been written to a stream. -/
def Downstream.bytes (d : Downstream) : Bytes :=
  d.header.encode ++ d.objects.flatMap RawObject.bytes

/-- The stream of the publisher, behind its header, is a list of objects, and ends behind them. -/
structure Complete (reader : DataReader) (objects : List RawObject) : Prop where
  framed : ∀ o ∈ objects, o.Framed reader.hasProperties
  bytes : reader.body.bytes = objects.flatMap RawObject.bytes
  ending : reader.body.ending = .finished

/-- The stream to the subscriber is that of the publisher, and what is read of it behind the header
is what the relay had to read. -/
structure Repeats (d : Downstream) (t : DataStreamTask) (reader : DataReader) : Prop where
  bytes : d.bytes = t.header.encode ++ reader.body.bytes
  finished : d.finished = true
  readAgain : ∃ content : ByteStream, content.bytes = d.bytes ∧ content.ending = .finished ∧
    readSubgroupHeader.Returns content (t.header, t.header.encode) reader.body

/-- The end of the stream is read where it is, and not before. -/
theorem Complete.taken {reader : DataReader} {t : DataStreamTask} {objects : List RawObject}
    (h : Complete reader objects) (hreads : Reads t reader)
    (hend : ∀ o, reader.read.1 ≠ some (some o)) :
    reader.taken = objects ∧ reader.read.1 = some none := by
  obtain ⟨more, rfl, hmore⟩ :=
    RawObject.eq_append_of_splits hreads.taken h.framed hreads.rest h.bytes
  cases more with
  | nil =>
    refine ⟨(List.append_nil _).symm, ?_⟩
    rcases reader.read_cases with ⟨o, rest, -, -, hread⟩ | ⟨hread, -⟩ | ⟨-, e, hfails⟩
    · exact absurd (by rw [hread]) (hend o)
    · rw [hread]
    · obtain ⟨_, hreturns⟩ : ∃ t, (readObject reader.hasProperties).Returns reader.rest none t :=
        returns_readObject_none.mpr (by rw [hmore]; rfl)
      exact absurd hfails hreturns.not_fails
  | cons o more =>
    obtain ⟨rest, hsplit, -⟩ := ByteStream.exists_splits hmore
    have hframed := h.framed o (by simp)
    exact absurd (DataReader.read_of_framed hframed hsplit) (hend o)

theorem Complete.repeats {reader : DataReader} {t : DataStreamTask} {objects : List RawObject}
    {streamType : UInt64} {r : Bytes} {session : MoqtSession} (h : Complete reader objects)
    (hreads : Reads t reader) (htype : decodeVarint.Returns reader.headerBytes streamType r)
    (hmode : SubgroupHeader.subgroupIdMode streamType ≠ 0x01) :
    Repeats ⟨session, t.header, objects, true⟩ t reader := by
  have hbytes : (Downstream.mk session t.header objects true).bytes =
      t.header.encode ++ reader.body.bytes := by rw [Downstream.bytes, h.bytes]
  obtain ⟨content, hheader⟩ := hreads.header
  obtain ⟨⟨streamType', hformat⟩, hsplit⟩ := returns_readSubgroupHeader.mp hheader
  obtain ⟨_, htype'⟩ := hformat.type_returns []
  rw [List.append_nil] at htype'
  obtain ⟨rfl, -⟩ := htype.unique htype'
  -- the header that is written is no longer than the one that was read
  have hfits : (t.header.encode ++ reader.body.bytes).length < 2 ^ 62 := by
    have hle := hformat.length_encode_le hmode
    have hcontent := content.fits
    rw [hsplit.1, List.length_append] at hcontent
    rw [List.length_append]
    omega
  refine ⟨hbytes, rfl, ⟨_, .finished, hfits⟩, hbytes.symm, rfl, returns_readSubgroupHeader.mpr ?_⟩
  exact ⟨⟨_, (SubgroupHeader.format_encode t.header).mono fun _ _ h => h.1⟩, rfl, h.ending.symm⟩

/-- How the task `i` has relayed its stream: the task returns whatever its writers meet, each of
the sessions that were found has been tried, a stream on which nothing has failed repeats that of
the publisher, and nothing is written to a stream after a failure. -/
structure Relayed (n : Network) (i : Nat) (t : DataStreamTask) (reader : DataReader) : Prop where
  header : SubgroupHeader.KeepsMeaning reader.headerBytes t.header []
  returns : n.world.LetsTurn t → ∀ oks, reader.work n.world t ≤ oks.length →
    (network.follow (Network.turn i) n oks).Returned i
  tried : t.pc = .returned → reader.subSessions.length = reader.opens.length
  granted : List.Forall₂ (fun s session => ∃ d, n.world.streams[s]? = some d ∧
    d.session = session ∧ d.header = t.header) t.opened reader.granted
  repeats : t.pc = .returned → ∀ s ∈ t.opened, s ∉ reader.failed → ∃ d, Repeats d t reader ∧
    ∀ ls, (network.run n ls).world.streams[s]? = some d
  failed : ∀ s ∈ reader.failed, ∃ d, d.objects <+: reader.taken ∧ d.finished = false ∧
    ∀ ls, (network.run n ls).world.streams[s]? = some d

theorem relayed_of_complete (ls : List NetworkLabel) {i : Nat} {t : DataStreamTask}
    {reader : DataReader} {objects : List RawObject} {streamType : UInt64} {r : Bytes}
    (ht : (network.run .new ls).world.dataStreams[i]? = some t)
    (hreader : (network.run .new ls).readers[i]? = some reader)
    (hcomplete : Complete reader objects)
    (htype : decodeVarint.Returns reader.headerBytes streamType r)
    (hmode : SubgroupHeader.subgroupIdMode streamType ≠ 0x01) :
    Relayed (network.run .new ls) i t reader := by
  have hforwarding := forwarding_of_reachable (network.reachable_run ls)
  obtain ⟨hreads, hopened, hphase⟩ := hforwarding.relaying i t reader ht hreader
  have htried (hpc : t.pc = .returned) : reader.subSessions.length = reader.opens.length := by
    rw [Phase, hpc] at hphase
    rcases hphase with hdrained | ⟨-, ws, heven⟩ | hdropping
    · rw [hdrained.nobody, hdrained.opens]
      rfl
    · exact heven.tried
    · exact hdropping.tried
  refine ⟨?_, fun hfree oks => Network.returned_of_turns hforwarding ht hreader hfree, htried,
    hopened.granted, fun hpc s hs hok => ?_, fun s hs => ?_⟩
  · obtain ⟨content, hheader⟩ := hreads.header
    obtain ⟨⟨_, hformat⟩, -⟩ := returns_readSubgroupHeader.mp hheader
    exact SubgroupHeader.keepsMeaning_of_mode (SubgroupHeader.returns_decode.mpr
      ⟨_, _, hformat, (List.append_nil _).symm⟩) htype hmode
  · have hsettled : Settled (network.run .new ls) i s := ⟨t, reader, ht, hreader, hs, .inr hpc⟩
    rw [Phase, hpc] at hphase
    rcases hphase with hdrained | ⟨hend, ws, heven⟩ | hdropping
    · rw [hdrained.opened] at hs
      cases hs
    · obtain ⟨session, hd⟩ := heven.carry s ((heven.alive.mem s).mpr ⟨hs, hok⟩)
      obtain ⟨htaken, -⟩ := hcomplete.taken hreads (by simp [hend])
      rw [htaken] at hd
      exact ⟨_, hcomplete.repeats hreads htype hmode, hsettled.run hforwarding hd⟩
    · obtain ⟨-, hend⟩ := hcomplete.taken hreads (by simp [hdropping.broken])
      rw [hdropping.broken] at hend
      cases hend
  · obtain ⟨hmem, d, hd, hobjects, hfinished⟩ := hopened.failed s hs
    have hsettled : Settled (network.run .new ls) i s := ⟨t, reader, ht, hreader, hmem, .inl hs⟩
    exact ⟨d, hobjects, hfinished, hsettled.run hforwarding hd⟩

/-- A stream of two objects, the second one without a payload, is relayed to two subscribers; the
first write to the second one fails. -/
def oneLost : List NetworkLabel :=
  [NetworkLabel.relay .connect, .relay .connect, .relay .connect] ++ Schedule.publish 0 0 ++
    Schedule.request 1 0 ++ Schedule.upstream 0 ++ Schedule.establish 0 ++ Schedule.request 2 1 ++
    Schedule.stream 0 { bytes := [0x10, 7, 2, 128, 0, 1, 97, 0, 0], ending := .finished } ++
    ([.proceed, .opened true, .opened true, .proceed, .object (some (some ⟨[0, 1], [97]⟩)),
      .wrote true, .wrote false, .proceed, .object (some (some ⟨[0, 0], []⟩)), .wrote true,
      .proceed, .object (some none), .wrote true, .proceed] : List Input).map
        fun input => NetworkLabel.relay (.dataStream 0 input)

def oneLostTask : DataStreamTask where
  senderSession := 0
  header := ⟨7, 2, false, false, none, some 128⟩
  pc := .returned
  activeWriters := [0]
  opened := [0, 1]

def oneLostReader : DataReader where
  connection := 0
  answers := [(0, .subscribeOk ⟨7, [], []⟩)]
  hasProperties := false
  headerBytes := [0x10, 7, 2, 128]
  body := { bytes := [0, 1, 97, 0, 0], ending := .finished }
  rest := { bytes := [], ending := .finished }
  taken := [⟨[0, 1], [97]⟩, ⟨[0, 0], []⟩]
  subSessions := [⟨1⟩, ⟨2⟩]
  opens := [true, true]
  failed := [1]

theorem relayed_oneLost : Relayed (network.run .new oneLost) 0 oneLostTask oneLostReader := by
  have hzero : IsVarint 0 [0] := by decide
  have hone : IsVarint 1 [1] := by decide
  have hnone : IsProperties false [] := rfl
  have hfirst : HeaderFormat false ⟨0, 1⟩ ([0] ++ [1] ++ []) := .mk hzero hone hnone
  have hsecond : HeaderFormat false ⟨0, 0⟩ ([0] ++ [0] ++ []) := .mk hzero hzero hnone
  have hcomplete : Complete oneLostReader [⟨[0, 1], [97]⟩, ⟨[0, 0], []⟩] := by
    refine ⟨List.forall_mem_cons.mpr ⟨⟨⟨0, 1⟩, hfirst, rfl⟩, ?_⟩, rfl, rfl⟩
    exact List.forall_mem_singleton.mpr ⟨⟨0, 0⟩, hsecond, rfl⟩
  have htype : decodeVarint.Returns oneLostReader.headerBytes 0x10 [7, 2, 128] := by decide
  exact relayed_of_complete oneLost (by decide +kernel) (by decide +kernel) hcomplete htype
    (by decide)

end Moqt.Relay
