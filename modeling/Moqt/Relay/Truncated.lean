import Moqt.Relay.Fidelity

/-! Streams that are cut short.  A stream to a subscriber may be finished only behind the last
object of a stream that the publisher has finished there. -/

namespace Moqt.Relay

open Library Wire

/-- Streams are finished where that of the publisher is, and a task that has found subscribers ends
with `Err` elsewhere. -/
structure FinishesWhole (n : Network) : Prop where
  finished : ∀ (i : Nat) (t : DataStreamTask) (reader : DataReader) (s : StreamId) (d : Downstream),
    n.world.dataStreams[i]? = some t → n.readers[i]? = some reader → s ∈ t.opened →
      n.world.streams[s]? = some d → d.finished = true → Complete reader reader.taken
  cut : ∀ (i : Nat) (t : DataStreamTask) (reader : DataReader), n.world.dataStreams[i]? = some t →
    n.readers[i]? = some reader → t.pc = .returned → reader.subSessions ≠ [] →
      ¬Complete reader reader.taken → ∃ e, (readObject reader.hasProperties).Fails reader.rest e ∧
        e.isPanic = false

/-- The task that reads from its stream. -/
def NetworkLabel.reading : NetworkLabel → Option Nat
  | .relay (.dataStream i (.object _)) => some i
  | _ => none

/-- What the task reads next is a whole object, or the end of the stream; where no stream to a
subscriber is left to it, the stream may also be cut short behind the first varint of an object. -/
def DataStreamTask.LetsRead (t : DataStreamTask) (reader : DataReader) : Prop :=
  if t.activeWriters = [] then EndsWhole reader.hasProperties reader.rest
  else HasObject reader.hasProperties reader.rest ∨ AtEnd reader.rest

instance (t : DataStreamTask) (reader : DataReader) : Decidable (t.LetsRead reader) :=
  inferInstanceAs (Decidable (if t.activeWriters = [] then EndsWhole _ _ else HasObject _ _ ∨ _))

/-- A task that has found subscribers reads from a stream that lets it. -/
def ReadsWhole (n : Network) (l : NetworkLabel) : Prop :=
  ∀ i ∈ l.reading, ∀ t ∈ n.world.dataStreams[i]?, ∀ reader ∈ n.readers[i]?,
    t.pc = .readObject → t.LetsRead reader

instance (n : Network) (l : NetworkLabel) : Decidable (ReadsWhole n l) :=
  inferInstanceAs (Decidable (∀ i ∈ l.reading, ∀ t ∈ n.world.dataStreams[i]?,
    ∀ reader ∈ n.readers[i]?, t.pc = .readObject → t.LetsRead reader))

theorem DataStreamTask.LetsRead.endsWhole {t : DataStreamTask} {reader : DataReader}
    (h : t.LetsRead reader) : EndsWhole reader.hasProperties reader.rest := by
  unfold LetsRead at h
  split at h
  · exact h
  · rcases h with hobject | hend
    · exact hobject.endsWhole
    · refine ⟨fun _ => hend, ?_⟩
      rw [hend.1]
      cases reader.hasProperties <;> decide

/-- A read that fails leaves no writer behind. -/
theorem DataStreamTask.LetsRead.activeWriters {t : DataStreamTask} {reader : DataReader}
    (h : t.LetsRead reader) (hbroken : reader.read.1 = none) : t.activeWriters = [] := by
  by_contra hactive
  rw [LetsRead, if_neg hactive] at h
  rcases reader.read_cases with ⟨o, rest, -, -, heq⟩ | ⟨heq, -⟩ | ⟨-, e, hfails⟩
  · rw [heq] at hbroken
    cases hbroken
  · rw [heq] at hbroken
    cases hbroken
  · rcases h with hobject | hend
    · obtain ⟨o, rest, hreturns⟩ := hasObject_iff.mp hobject
      exact hreturns.not_fails hfails
    · obtain ⟨rest, hreturns⟩ : ∃ t, (readObject reader.hasProperties).Returns reader.rest none t :=
        returns_readObject_none.mpr (by rw [hend.1]; rfl)
      exact hreturns.not_fails hfails

/-- The last object has been taken exactly if nothing is left. -/
theorem Reads.complete_iff {t : DataStreamTask} {reader : DataReader} (h : Reads t reader) :
    Complete reader reader.taken ↔ AtEnd reader.rest := by
  constructor
  · rintro ⟨-, hbytes, hending⟩
    refine ⟨?_, h.rest.2.symm.trans hending⟩
    exact List.append_cancel_left (h.rest.1.symm.trans (hbytes.trans (List.append_nil _).symm))
  · rintro ⟨hbytes, hending⟩
    refine ⟨h.taken, ?_, h.rest.2.trans hending⟩
    rw [h.rest.1, hbytes, List.append_nil]

/-- The task reads no more. -/
def DataStreamTask.Ended (t : DataStreamTask) : Prop :=
  (∃ todo, t.pc = .finish todo) ∨ (∃ todo, t.pc = .dropWriters todo) ∨ t.pc = .returned

/-- Streams are finished by a task that has read the end of its own, or that drops their writers as
it cannot read on. -/
theorem Relaying.ended_of_finished {streams : List Downstream} {t : DataStreamTask}
    {reader : DataReader} {s : StreamId} {d : Downstream} (h : Relaying streams t reader)
    (hs : s ∈ t.opened) (hd : streams[s]? = some d) (hfinished : d.finished = true) :
    t.Ended ∧ (reader.read.1 = some none ∨ reader.read.1 = none ∧ t.activeWriters ≠ []) := by
  have hok : s ∉ reader.failed := by
    intro hfailed
    obtain ⟨-, d', hd', -, hopen⟩ := h.opened.failed s hfailed
    obtain rfl := Option.mem_unique hd hd'
    rw [hfinished] at hopen
    cases hopen
  have carried {ws : List StreamId} {objects : List RawObject}
      (hcarry : Carry streams t.header ws objects false) : s ∉ ws := by
    intro hmem
    obtain ⟨session, hd'⟩ := hcarry s hmem
    obtain rfl := Option.mem_unique hd hd'
    cases hfinished
  have none_opened (hopened : t.opened = []) : False := by
    rw [hopened] at hs
    cases hs
  have dropping {todo : List StreamId} (hdropping : Dropping streams t reader todo) :
      reader.read.1 = none ∧ t.activeWriters ≠ [] :=
    ⟨hdropping.broken, List.ne_nil_of_mem ((hdropping.alive.mem s).mpr ⟨hs, hok⟩)⟩
  have hphase := h.phase
  cases hpc : t.pc with
  | lookup =>
    rw [Phase, hpc] at hphase
    exact (none_opened hphase.opened).elim
  | drain =>
    rw [Phase, hpc] at hphase
    exact (none_opened hphase.opened).elim
  | openStreams todo =>
    rw [Phase, hpc] at hphase
    exact absurd ((hphase.alive.mem s).mpr ⟨hs, hok⟩) (carried hphase.carry)
  | readObject =>
    rw [Phase, hpc] at hphase
    exact absurd ((hphase.alive.mem s).mpr ⟨hs, hok⟩) (carried hphase.carry)
  | writeObject object todo stillActive =>
    rw [Phase, hpc] at hphase
    obtain ⟨before, -, howed⟩ := hphase.owed
    rcases List.mem_append.mp ((hphase.alive.mem s).mpr ⟨hs, hok⟩) with hmem | hmem
    · exact absurd hmem (carried hphase.carry)
    · exact absurd hmem (carried howed)
  | finish todo =>
    rw [Phase, hpc] at hphase
    exact ⟨.inl ⟨todo, hpc⟩, .inl hphase.ended⟩
  | dropWriters todo =>
    rw [Phase, hpc] at hphase
    exact ⟨.inr (.inl ⟨todo, hpc⟩), .inr (dropping hphase)⟩
  | returned =>
    rw [Phase, hpc] at hphase
    rcases hphase with hdrained | ⟨hended, -⟩ | hphase
    · exact (none_opened hdrained.opened).elim
    · exact ⟨.inr (.inr hpc), .inl hended⟩
    · exact ⟨.inr (.inr hpc), .inr (dropping hphase)⟩

/-- The task has subscribers, and has made its last read. -/
def DataStreamTask.HasRead (t : DataStreamTask) (reader : DataReader) : Prop :=
  t.Ended ∧ reader.subSessions ≠ []

/-- The last read of a task with subscribers was from a stream that let it read. -/
structure Judged (n : Network) : Prop where
  forwarding : Forwarding n
  whole : ∀ (i : Nat) (t : DataStreamTask) (reader : DataReader), n.world.dataStreams[i]? = some t →
    n.readers[i]? = some reader → t.HasRead reader → t.LetsRead reader

theorem Advance.hasRead {w : World} {t t' : DataStreamTask} {reader reader' : DataReader}
    {input : Input} {streams' : List Downstream}
    (h : Advance w t reader input t' reader' streams') (hphase : Phase w.streams t reader)
    (hread : t'.HasRead reader') : (t.LetsRead reader → t'.LetsRead reader') ∧
      (t.HasRead reader ∨ t.pc = .readObject ∧ ∃ read, input = .object read) := by
  obtain ⟨hor, hsubs⟩ := hread
  unfold DataStreamTask.Ended at hor
  cases h with
  | drainEnd hpc =>
    rw [Phase, hpc] at hphase
    exact absurd (hphase.read rfl).nobody hsubs
  | readFailed hpc | readEnd hpc => exact ⟨id, .inr ⟨hpc, _, rfl⟩⟩
  | finished hpc | unfinished hpc | allFinished hpc =>
    exact ⟨id, .inl ⟨.inl ⟨_, hpc⟩, hsubs⟩⟩
  | dropped hpc | droppedDead hpc | allDropped hpc =>
    exact ⟨id, .inl ⟨.inr (.inl ⟨_, hpc⟩), hsubs⟩⟩
  | drained hpc => simp [hpc] at hor
  | @lookup hpc sessions hsessions => cases sessions <;> simp at hor
  | openStream hpc => simp [withStream] at hor
  | _ => simp at hor

theorem Judged.step {n n' : Network} {l : NetworkLabel} (h : Judged n) (hl : ReadsWhole n l)
    (hstep : NetworkStep n l n') : Judged n' := by
  refine ⟨h.forwarding.step hstep, fun j u' reader₁ hu' hreader₁ hread => ?_⟩
  cases hstep.taskOrigin h.forwarding.length hu' hreader₁ with
  | kept hu hreader => exact h.whole j u' reader₁ hu hreader hread
  | accepted hlink hstream hconn hread₀ hu' hreader₁ =>
    rw [hreader₁] at hread
    exact absurd rfl hread.2
  | @moved t reader input hlabel ht hreader hdata hmoves =>
    obtain ⟨hkeeps, hread | ⟨hpc, read, rfl⟩⟩ := (hdata.advance ht hu' hmoves).hasRead
      (h.forwarding.relaying j t reader ht hreader).phase hread
    · exact hkeeps (h.whole j t reader ht hreader hread)
    · exact hkeeps (hl j (by rw [hlabel]; rfl) t ht reader hreader hpc)

theorem Judged.finishesWhole {n : Network} (h : Judged n) : FinishesWhole n := by
  -- the end that has been read is the end of the stream
  have ended {t : DataStreamTask} {reader : DataReader} (hreads : Reads t reader)
      (hwhole : EndsWhole reader.hasProperties reader.rest) (hread : reader.read.1 = some none) :
      Complete reader reader.taken := by
    rw [hreads.complete_iff]
    rcases reader.read_cases with ⟨o, rest, -, -, heq⟩ | ⟨-, hnone⟩ | ⟨heq, -⟩
    · rw [heq] at hread
      cases hread
    · exact (endsFaithfully_iff.mpr hwhole).none_iff.mp hnone
    · rw [heq] at hread
      cases hread
  constructor
  · intro i t reader s d ht hreader hs hd hfinished
    have hrelaying := h.forwarding.relaying i t reader ht hreader
    obtain ⟨hpc, hor⟩ := hrelaying.ended_of_finished hs hd hfinished
    have hsubs : reader.subSessions ≠ [] := by
      intro hnil
      have hlen := hrelaying.opened.granted.length_eq
      rw [DataReader.granted, hnil] at hlen
      rw [List.eq_nil_of_length_eq_zero hlen] at hs
      cases hs
    have hlets := h.whole i t reader ht hreader ⟨hpc, hsubs⟩
    rcases hor with hread | ⟨hbroken, hactive⟩
    · exact ended hrelaying.reads hlets.endsWhole hread
    · exact absurd (hlets.activeWriters hbroken) hactive
  · intro i t reader ht hreader hpc hsubs hcut
    obtain ⟨hreads, -, hphase⟩ := h.forwarding.relaying i t reader ht hreader
    have hwhole := (h.whole i t reader ht hreader ⟨.inr (.inr hpc), hsubs⟩).endsWhole
    rw [Phase, hpc] at hphase
    rcases hphase with hdrained | ⟨hended, -⟩ | hdropping
    · exact absurd hdrained.nobody hsubs
    · exact absurd (ended hreads hwhole hended) hcut
    · have hfails := hdropping.broken
      refine (endsFaithfully_iff.mpr hwhole).cut (fun hobject => ?_) (fun hend => ?_)
      · obtain ⟨o, rest, hreturns⟩ := hasObject_iff.mp hobject
        rcases reader.read_cases with ⟨o', rest', -, -, heq⟩ | ⟨heq, -⟩ | ⟨-, e, he⟩
        · rw [heq] at hfails
          cases hfails
        · rw [heq] at hfails
          cases hfails
        · exact hreturns.not_fails he
      · exact hcut (hreads.complete_iff.mpr hend)

theorem finishesWhole_of_readsWhole {ls : List NetworkLabel}
    (h : network.Meets ReadsWhole network.init ls) :
    FinishesWhole (network.run network.init ls) := by
  have hnew : Judged network.init :=
    ⟨forwarding_of_reachable ⟨[], rfl⟩, fun i t reader ht => by
      simp [network, Network.new, World.new] at ht⟩
  exact (network.invariant hnew (fun _ _ _ hI hl hstep => hI.step hl (NetworkStep.of_step hstep))
    h).finishesWhole

/-- A read tells the end of a stream exactly where the stream ends whole; in a run in which no
stream is cut short while a subscriber is relayed to, nor within the first varint of an object,
streams to subscribers are finished only behind the last object. -/
theorem endsFaithfully_finishesWhole (hasProperties : Bool) (s : ByteStream)
    (ls : List NetworkLabel) : (EndsFaithfully hasProperties s ↔ EndsWhole hasProperties s) ∧
      (network.Meets ReadsWhole network.init ls → FinishesWhole (network.run network.init ls)) :=
  ⟨endsFaithfully_iff, finishesWhole_of_readsWhole⟩

/-- A stream that the publisher finishes within the first varint of an object. -/
def cutVarintRun : List NetworkLabel :=
  relayTo { bytes := [0x10, 7, 2, 128, 0x80], ending := .finished }
    [.object (some none), .wrote true]

/-- A stream that is reset within its second object: the read fails, and the writer is dropped. -/
def resetWithin : List NetworkLabel :=
  relayTo { bytes := [0x10, 7, 2, 128, 0, 1, 97, 0, 5, 97], ending := .reset }
    [.object (some (some ⟨[0, 1], [97]⟩)), .wrote true, .proceed, .object none, .wrote true,
      .proceed]

theorem not_finishesWhole_cut :
    (¬∀ (hasProperties : Bool) (s : ByteStream), EndsFaithfully hasProperties s) ∧
      ¬FinishesWhole (network.run network.init cutVarintRun) ∧
      ¬FinishesWhole (network.run network.init resetWithin) := by
  refine ⟨fun h => ?_, fun hfinishes => ?_, fun hfinishes => ?_⟩
  · have hnone : (readObject false).Returns { bytes := [0x80], ending := .finished } none
        { bytes := [], ending := .finished } := by decide
    have hend := (h false { bytes := [0x80], ending := .finished }).none_iff.mp ⟨_, hnone⟩
    cases hend.1
  · have hcut : ∃ t ∈ (network.run network.init cutVarintRun).world.dataStreams[0]?,
        ∃ reader ∈ (network.run network.init cutVarintRun).readers[0]?,
        ∃ d ∈ (network.run network.init cutVarintRun).world.streams[0]?,
          0 ∈ t.opened ∧ d.finished = true ∧
            reader.body.bytes ≠ reader.taken.flatMap RawObject.bytes := by decide +kernel
    obtain ⟨t, ht, reader, hreader, d, hd, hs, hfinished, hbytes⟩ := hcut
    exact hbytes (hfinishes.finished 0 t reader 0 d ht hreader hs hd hfinished).bytes
  · have hreset : ∃ t ∈ (network.run network.init resetWithin).world.dataStreams[0]?,
        ∃ reader ∈ (network.run network.init resetWithin).readers[0]?,
        ∃ d ∈ (network.run network.init resetWithin).world.streams[0]?,
          0 ∈ t.opened ∧ d.finished = true ∧ reader.body.ending = .reset := by decide +kernel
    obtain ⟨t, ht, reader, hreader, d, hd, hs, hfinished, hending⟩ := hreset
    have hcomplete := hfinishes.finished 0 t reader 0 d ht hreader hs hd hfinished
    exact absurd (hending.symm.trans hcomplete.ending) (by decide)

/-- The same stream, after the write of the first object to the subscriber has failed. -/
def resetAfterLoss : List NetworkLabel :=
  relayTo { bytes := [0x10, 7, 2, 128, 0, 1, 97, 0, 5, 97], ending := .reset }
    [.object (some (some ⟨[0, 1], [97]⟩)), .wrote false, .proceed, .object none, .proceed]

theorem finishesWhole_resetAfterLoss :
    EndsFaithfully false { bytes := [0, 5, 97], ending := .reset } ∧
      FinishesWhole (network.run network.init resetAfterLoss) := by
  obtain ⟨hread, hrun⟩ := endsFaithfully_finishesWhole false
    { bytes := [0, 5, 97], ending := .reset } resetAfterLoss
  exact ⟨hread.mpr (by decide), hrun (by decide +kernel)⟩

end Moqt.Relay
