import Moqt.Relay.Reading

/-! What a data stream becomes on its way to a subscriber.  A stream to a subscriber on which
nothing has failed carries all the objects that have been read; it is finished when the end of the
upstream has been read, or as the reading fails and its writer is dropped. -/

namespace Moqt.Relay

open Library Wire

/-! ### What a task has relayed -/

/-- The sessions to which a stream could be opened. -/
def DataReader.granted (reader : DataReader) : List MoqtSession :=
  ((reader.subSessions.zip reader.opens).filter (·.2)).map (·.1)

/-- The next session is tried. -/
theorem DataReader.granted_tried {reader : DataReader} {tried todo : List MoqtSession}
    {session : MoqtSession} (htried : reader.subSessions = tried ++ session :: todo)
    (hlen : tried.length = reader.opens.length) (ok : Bool) :
    { reader with opens := reader.opens ++ [ok] : DataReader }.granted =
      reader.granted ++ if ok then [session] else [] := by
  have hzip (opens : List Bool) :
      reader.subSessions.zip (reader.opens ++ opens) =
        tried.zip reader.opens ++ (session :: todo).zip opens := by
    rw [htried, List.zip_append hlen]
  have hbefore := hzip []
  rw [List.append_nil] at hbefore
  unfold granted
  rw [hbefore, hzip [ok]]
  cases ok <;> simp

/-- A session has its stream, if every try to open one to it has succeeded. -/
theorem DataReader.mem_granted {reader : DataReader} {session : MoqtSession}
    (hfound : session ∈ reader.subSessions)
    (htried : reader.subSessions.length = reader.opens.length)
    (hopens : ∀ p ∈ reader.subSessions.zip reader.opens, p.1 = session → p.2 = true) :
    session ∈ reader.granted := by
  rw [← List.map_fst_zip (Nat.le_of_eq htried)] at hfound
  obtain ⟨p, hp, rfl⟩ := List.mem_map.mp hfound
  exact List.mem_map.mpr ⟨p, List.mem_filter.mpr ⟨hp, hopens p hp rfl⟩, rfl⟩

/-- There is a stream for each of these sessions; one on which something has failed carries the
first of the objects, and is not finished. -/
structure Opened (streams : List Downstream) (t : DataStreamTask) (reader : DataReader) : Prop where
  nodup : t.opened.Nodup
  granted : List.Forall₂ (fun s session => ∃ d, streams[s]? = some d ∧ d.session = session ∧
    d.header = t.header) t.opened reader.granted
  failed : ∀ s ∈ reader.failed, s ∈ t.opened ∧ ∃ d, streams[s]? = some d ∧
    d.objects <+: reader.taken ∧ d.finished = false

/-- `ws` are the streams that the task has opened and on which nothing has failed. -/
structure Alive (t : DataStreamTask) (reader : DataReader) (ws : List StreamId) : Prop where
  nodup : ws.Nodup
  mem : ∀ s, s ∈ ws ↔ s ∈ t.opened ∧ s ∉ reader.failed

/-- The streams `ws` carry the objects, behind the header, and are finished or not. -/
def Carry (streams : List Downstream) (header : SubgroupHeader) (ws : List StreamId)
    (objects : List RawObject) (finished : Bool) : Prop :=
  ∀ s ∈ ws, ∃ session, streams[s]? = some ⟨session, header, objects, finished⟩

/-- The lookup is still to come. -/
structure Fresh (t : DataStreamTask) (reader : DataReader) : Prop where
  opened : t.opened = []
  active : t.activeWriters = []
  opens : reader.opens = []
  failed : reader.failed = []
  taken : reader.taken = []

/-- There was nobody to relay to. -/
structure Drained (t : DataStreamTask) (reader : DataReader) : Prop where
  opened : t.opened = []
  opens : reader.opens = []
  failed : reader.failed = []
  nobody : reader.subSessions = []

structure Opening (streams : List Downstream) (t : DataStreamTask) (reader : DataReader)
    (todo : List MoqtSession) : Prop where
  todo : ∃ tried, reader.subSessions = tried ++ todo ∧ tried.length = reader.opens.length
  taken : reader.taken = []
  failed : reader.failed = []
  alive : Alive t reader t.activeWriters
  carry : Carry streams t.header t.activeWriters [] false

/-- Every stream carries every object. -/
structure Even (streams : List Downstream) (t : DataStreamTask) (reader : DataReader)
    (ws : List StreamId) (finished : Bool) : Prop where
  tried : reader.subSessions.length = reader.opens.length
  alive : Alive t reader ws
  carry : Carry streams t.header ws reader.taken finished

/-- The streams `todo` are owed the object `o`. -/
structure Writing (streams : List Downstream) (t : DataStreamTask) (reader : DataReader)
    (o : RawObject) (todo stillActive : List StreamId) : Prop where
  tried : reader.subSessions.length = reader.opens.length
  alive : Alive t reader (stillActive ++ todo)
  carry : Carry streams t.header stillActive reader.taken false
  owed : ∃ before, reader.taken = before ++ [o] ∧ Carry streams t.header todo before false

/-- The streams `todo` are still to be finished. -/
structure Finishing (streams : List Downstream) (t : DataStreamTask) (reader : DataReader)
    (todo : List StreamId) : Prop where
  tried : reader.subSessions.length = reader.opens.length
  ended : reader.read.1 = some none
  alive : ∃ done, Alive t reader (done ++ todo) ∧ Carry streams t.header done reader.taken true
  carry : Carry streams t.header todo reader.taken false

/-- The streams `ws` carry the objects, behind the header; which of them are finished is open. -/
def CarryAll (streams : List Downstream) (header : SubgroupHeader) (ws : List StreamId)
    (objects : List RawObject) : Prop :=
  ∀ s ∈ ws, ∃ session finished, streams[s]? = some ⟨session, header, objects, finished⟩

/-- A read has failed, and the writers `todo` are still to be dropped. -/
structure Dropping (streams : List Downstream) (t : DataStreamTask) (reader : DataReader)
    (todo : List StreamId) : Prop where
  tried : reader.subSessions.length = reader.opens.length
  broken : reader.read.1 = none
  alive : Alive t reader t.activeWriters
  todo : todo ⊆ t.activeWriters
  carry : CarryAll streams t.header t.activeWriters reader.taken

/-- What holds of a task at the point that it has reached. -/
def Phase (streams : List Downstream) (t : DataStreamTask) (reader : DataReader) : Prop :=
  match t.pc with
  | .lookup => Fresh t reader
  | .drain => Drained t reader
  | .openStreams todo => Opening streams t reader todo
  | .readObject => Even streams t reader t.activeWriters false
  | .writeObject o todo stillActive => Writing streams t reader o todo stillActive
  | .finish todo => Finishing streams t reader todo
  | .dropWriters todo => Dropping streams t reader todo
  | .returned => Drained t reader ∨
    (reader.read.1 = some none ∧ ∃ ws, Even streams t reader ws true) ∨
      Dropping streams t reader []

/-- The state of a task, with its reader. -/
structure Relaying (streams : List Downstream) (t : DataStreamTask) (reader : DataReader) :
    Prop where
  reads : Reads t reader
  opened : Opened streams t reader
  phase : Phase streams t reader

/-! ### The streams of others -/

namespace Alive

variable {t : DataStreamTask} {reader : DataReader} {ws ws' : List StreamId} {s : StreamId}

theorem perm (h : Alive t reader ws) (hws : ws.Perm ws') : Alive t reader ws' :=
  ⟨hws.nodup_iff.mp h.nodup, fun s => hws.mem_iff.symm.trans (h.mem s)⟩

/-- A write to a stream has failed. -/
theorem lost (h : Alive t reader (ws ++ s :: ws')) :
    Alive t { reader with failed := reader.failed ++ [s] } (ws ++ ws') := by
  have hperm : (ws ++ s :: ws').Perm (s :: (ws ++ ws')) := List.perm_middle
  have hnodup := List.nodup_cons.mp (h.perm hperm).nodup
  refine ⟨hnodup.2, fun a => ?_⟩
  have hmem := (h.perm hperm).mem a
  rw [List.mem_cons] at hmem
  simp only [List.mem_append (s := reader.failed), List.mem_singleton]
  by_cases hs : a = s
  · subst hs
    simp [hnodup.1]
  · simpa [hs] using hmem

end Alive

theorem Carry.congr {streams streams' : List Downstream} {header : SubgroupHeader}
    {ws : List StreamId} {objects : List RawObject} {finished : Bool}
    (h : Carry streams header ws objects finished)
    (hsame : ∀ s ∈ ws, streams'[s]? = streams[s]?) : Carry streams' header ws objects finished := by
  intro s hs
  rw [hsame s hs]
  exact h s hs

theorem Carry.all {streams : List Downstream} {header : SubgroupHeader} {ws : List StreamId}
    {objects : List RawObject} {finished : Bool} (h : Carry streams header ws objects finished) :
    CarryAll streams header ws objects := by
  intro s hs
  obtain ⟨session, hd⟩ := h s hs
  exact ⟨session, finished, hd⟩

theorem CarryAll.congr {streams streams' : List Downstream} {header : SubgroupHeader}
    {ws : List StreamId} {objects : List RawObject} (h : CarryAll streams header ws objects)
    (hsame : ∀ s ∈ ws, streams'[s]? = streams[s]?) : CarryAll streams' header ws objects := by
  intro s hs
  rw [hsame s hs]
  exact h s hs

/-- Streams stay where they go to. -/
def Kept (streams streams' : List Downstream) : Prop :=
  ∀ (s : StreamId) (d : Downstream), streams[s]? = some d →
    ∃ d', streams'[s]? = some d' ∧ d'.session = d.session ∧ d'.header = d.header

/-- What a step of the task makes of the streams: the task writes to its own ones on which nothing
has failed, and opens new ones. -/
structure Touches (streams streams' : List Downstream) (t t' : DataStreamTask)
    (reader : DataReader) : Prop where
  header : t'.header = t.header
  opened : ∀ s ∈ t'.opened, s ∈ t.opened ∨ streams.length ≤ s
  kept : Kept streams streams'
  others : ∀ (s : StreamId) (d : Downstream), streams[s]? = some d →
    s ∉ t.opened ∨ s ∈ reader.failed → streams'[s]? = some d

theorem Opened.lt {streams : List Downstream} {t : DataStreamTask} {reader : DataReader}
    (h : Opened streams t reader) : ∀ s ∈ t.opened, s < streams.length := by
  refine ((List.forall₂_and_left (p := fun s => s < streams.length) (R := fun _ _ => True) _ _).mp
    (h.granted.imp ?_)).1
  rintro s session ⟨d, hd, -⟩
  exact ⟨(List.getElem?_eq_some_iff.mp hd).1, trivial⟩

/-- A session to which a stream could be opened has a stream. -/
theorem Opened.stream {streams : List Downstream} {t : DataStreamTask} {reader : DataReader}
    (h : Opened streams t reader) {session : MoqtSession} (hsession : session ∈ reader.granted) :
    ∃ s ∈ t.opened, ∃ d, streams[s]? = some d ∧ d.session = session ∧ d.header = t.header := by
  obtain ⟨hlength, hget⟩ := List.forall₂_iff_get.mp h.granted
  obtain ⟨⟨j, hj⟩, rfl⟩ := List.mem_iff_get.mp hsession
  exact ⟨_, List.get_mem _ _, hget j (hlength ▸ hj) hj⟩

/-- The sessions are those of the streams, whatever has been written to these. -/
theorem Opened.granted_of_kept {streams streams' : List Downstream} {t : DataStreamTask}
    {reader : DataReader} (h : Opened streams t reader) (hkept : Kept streams streams') :
    List.Forall₂ (fun s session => ∃ d, streams'[s]? = some d ∧ d.session = session ∧
      d.header = t.header) t.opened reader.granted := by
  refine h.granted.imp ?_
  rintro s session ⟨d, hd, hsession, hheader⟩
  obtain ⟨d', hd', hsession', hheader'⟩ := hkept s d hd
  exact ⟨d', hd', hsession'.trans hsession, hheader'.trans hheader⟩

theorem Opened.congr {streams streams' : List Downstream} {t t' : DataStreamTask}
    {reader reader' : DataReader} (h : Opened streams t reader)
    (htouches : Touches streams streams' t t' reader) (hopened : t'.opened = t.opened)
    (hgranted : reader'.granted = reader.granted) (hfailed : reader'.failed = reader.failed)
    (htaken : reader.taken <+: reader'.taken) : Opened streams' t' reader' := by
  refine ⟨hopened ▸ h.nodup, ?_, fun s hs => ?_⟩
  · rw [hopened, hgranted, htouches.header]
    exact h.granted_of_kept htouches.kept
  · rw [hfailed] at hs
    obtain ⟨hmem, d, hd, hobjects, hfinished⟩ := h.failed s hs
    exact ⟨hopened ▸ hmem, d, htouches.others s d hd (.inr hs), hobjects.trans htaken, hfinished⟩

theorem Touches.same {streams : List Downstream} {t t' : DataStreamTask} {reader : DataReader}
    (hheader : t'.header = t.header) (hopened : t'.opened = t.opened) :
    Touches streams streams t t' reader :=
  ⟨hheader, fun _ hs => .inl (hopened ▸ hs), fun _ d hd => ⟨d, hd, rfl, rfl⟩,
    fun _ _ hd _ => hd⟩

/-- A write to a stream of the task on which nothing has failed. -/
theorem Touches.modify {streams : List Downstream} {t t' : DataStreamTask} {reader : DataReader}
    {ws : List StreamId} {s : StreamId} {f : Downstream → Downstream} (halive : Alive t reader ws)
    (hs : s ∈ ws) (hf : ∀ d, (f d).session = d.session ∧ (f d).header = d.header)
    (hheader : t'.header = t.header) (hopened : t'.opened = t.opened) :
    Touches streams (streams.modify s f) t t' reader := by
  refine ⟨hheader, fun _ hs => .inl (hopened ▸ hs), fun a d hd => ?_, fun a d hd hother => ?_⟩
  · refine ⟨_, Table.getElem?_modify.mpr ⟨d, hd, rfl⟩, ?_⟩
    split
    · exact hf d
    · exact ⟨rfl, rfl⟩
  · have hne : a ≠ s := by
      rintro rfl
      obtain ⟨hopen, hok⟩ := (halive.mem a).mp hs
      rcases hother with hno | hfail
      · exact hno hopen
      · exact hok hfail
    exact Table.getElem?_modify.mpr ⟨d, hd, by rw [if_neg hne]⟩

theorem Touches.concat {streams : List Downstream} {t t' : DataStreamTask} {reader : DataReader}
    {d : Downstream} (hheader : t'.header = t.header)
    (hopened : t'.opened = t.opened ++ [streams.length]) :
    Touches streams (streams ++ [d]) t t' reader := by
  refine ⟨hheader, fun s hs => ?_, fun s d hd => ?_, fun s d hd _ => ?_⟩
  · rw [hopened, List.mem_append, List.mem_singleton] at hs
    exact hs.imp_right fun heq => Nat.le_of_eq heq.symm
  · exact ⟨d, Table.getElem?_concat.mpr (.inl hd), rfl, rfl⟩
  · exact Table.getElem?_concat.mpr (.inl hd)

/-- A step of another task. -/
theorem Relaying.congr {streams streams' : List Downstream} {t : DataStreamTask}
    {reader : DataReader} (h : Relaying streams t reader) (hkept : Kept streams streams')
    (hsame : ∀ s ∈ t.opened, streams'[s]? = streams[s]?) : Relaying streams' t reader := by
  have hcarry {ws ws' : List StreamId} {objects : List RawObject} {finished : Bool}
      (halive : Alive t reader ws') (hws : ws ⊆ ws')
      (hc : Carry streams t.header ws objects finished) :
      Carry streams' t.header ws objects finished :=
    hc.congr fun s hs => hsame s ((halive.mem s).mp (hws hs)).1
  have hdropping {todo : List StreamId} (hd : Dropping streams t reader todo) :
      Dropping streams' t reader todo :=
    ⟨hd.tried, hd.broken, hd.alive, hd.todo,
      hd.carry.congr fun s hs => hsame s ((hd.alive.mem s).mp hs).1⟩
  refine ⟨h.reads, ⟨h.opened.nodup, h.opened.granted_of_kept hkept, fun s hs => ?_⟩, ?_⟩
  · obtain ⟨hmem, h'⟩ := h.opened.failed s hs
    exact ⟨hmem, by rw [hsame s hmem]; exact h'⟩
  · have hphase := h.phase
    unfold Phase at hphase ⊢
    split at hphase
    · exact hphase
    · exact hphase
    · obtain ⟨htodo, htaken, hfailed, halive, hc⟩ := hphase
      exact ⟨htodo, htaken, hfailed, halive, hcarry halive (List.Subset.refl _) hc⟩
    · obtain ⟨htried, halive, hc⟩ := hphase
      exact ⟨htried, halive, hcarry halive (List.Subset.refl _) hc⟩
    · obtain ⟨htried, halive, hc, before, htaken, howed⟩ := hphase
      exact ⟨htried, halive, hcarry halive (List.subset_append_left _ _) hc, before, htaken,
        hcarry halive (List.subset_append_right _ _) howed⟩
    · obtain ⟨htried, hended, ⟨done, halive, hdone⟩, hc⟩ := hphase
      exact ⟨htried, hended, ⟨done, halive, hcarry halive (List.subset_append_left _ _) hdone⟩,
        hcarry halive (List.subset_append_right _ _) hc⟩
    · exact hdropping hphase
    · rcases hphase with hdrained | ⟨hended, ws, htried, halive, hc⟩ | hphase
      · exact .inl hdrained
      · exact .inr (.inl ⟨hended, ws, htried, halive, hcarry halive (List.Subset.refl _) hc⟩)
      · exact .inr (.inr (hdropping hphase))

/-! ### The steps of a task -/

/-- Writes that carry one more object, or the end of the stream. -/
theorem Carry.snoc {streams : List Downstream} {header : SubgroupHeader} {ws : List StreamId}
    {before objects : List RawObject} {s : StreamId} {finished : Bool} {f : Downstream → Downstream}
    (h : Carry streams header ws objects finished) (hs : Carry streams header [s] before false)
    (hnew : s ∉ ws)
    (hf : ∀ session, f ⟨session, header, before, false⟩ = ⟨session, header, objects, finished⟩) :
    Carry (streams.modify s f) header (ws ++ [s]) objects finished := by
  intro a ha
  rcases List.mem_append.mp ha with ha | ha
  · obtain ⟨session, hd⟩ := h a ha
    have hne : a ≠ s := fun heq => hnew (heq ▸ ha)
    exact ⟨session, Table.getElem?_modify.mpr ⟨_, hd, by rw [if_neg hne]⟩⟩
  · obtain rfl := List.mem_singleton.mp ha
    obtain ⟨session, hd⟩ := hs a ha
    exact ⟨session, Table.getElem?_modify.mpr ⟨_, hd, by rw [if_pos rfl, hf]⟩⟩

theorem Carry.other {streams : List Downstream} {header : SubgroupHeader} {ws : List StreamId}
    {objects : List RawObject} {s : StreamId} {finished : Bool} {f : Downstream → Downstream}
    (h : Carry streams header ws objects finished) (hnew : s ∉ ws) :
    Carry (streams.modify s f) header ws objects finished := by
  refine h.congr fun a ha => ?_
  have hne : s ≠ a := fun heq => hnew (heq ▸ ha)
  rw [List.getElem?_modify_ne f streams hne]

/-- A write to one of the streams has failed. -/
theorem Opened.lost {streams : List Downstream} {t t' : DataStreamTask} {reader : DataReader}
    {ws : List StreamId} {s : StreamId} {objects : List RawObject} (h : Opened streams t reader)
    (halive : Alive t reader ws) (hs : s ∈ ws) (hcarry : Carry streams t.header [s] objects false)
    (hobjects : objects <+: reader.taken) (hheader : t'.header = t.header)
    (hopened : t'.opened = t.opened) :
    Opened streams t' { reader with failed := reader.failed ++ [s] } := by
  refine ⟨hopened ▸ h.nodup, by rw [hopened, hheader]; exact h.granted, fun a ha => ?_⟩
  rw [hopened]
  rcases List.mem_append.mp ha with ha | ha
  · exact h.failed a ha
  · obtain rfl := List.mem_singleton.mp ha
    obtain ⟨session, hd⟩ := hcarry a ha
    exact ⟨((halive.mem a).mp hs).1, _, hd, hobjects, rfl⟩

section Phase

variable {streams : List Downstream} {t : DataStreamTask} {reader : DataReader}

theorem Fresh.lookup (h : Fresh t reader) (sessions : List MoqtSession) :
    Phase streams { t with pc := if sessions.isEmpty then .drain else .openStreams sessions }
      { reader with subSessions := sessions } := by
  obtain ⟨hopened, hactive, hopens, hfailed, htaken⟩ := h
  cases sessions with
  | nil =>
    show Drained _ _
    exact ⟨hopened, hopens, hfailed, rfl⟩
  | cons session sessions =>
    show Opening streams _ _ (session :: sessions)
    refine ⟨⟨[], rfl, by simp [hopens]⟩, htaken, hfailed, ?_, ?_⟩
    · exact ⟨by simp [hactive], by simp [hactive, hopened]⟩
    · simp [Carry, hactive]

theorem Drained.read (h : Drained t reader) {t' : DataStreamTask} (hopened : t'.opened = t.opened) :
    Drained t' reader.read.2 := by
  obtain ⟨hsessions, hopens, hfailed⟩ := reader.read_writers
  exact ⟨hopened.trans h.opened, hopens.trans h.opens, hfailed.trans h.failed,
    hsessions.trans h.nobody⟩

section Open

variable {session : MoqtSession} {todo : List MoqtSession}

theorem Opened.openStream (h : Opened streams t reader)
    (hopening : Opening streams t reader (session :: todo)) :
    Opened (streams ++ [⟨session, t.header, [], false⟩]) (withStream t streams.length todo)
      { reader with opens := reader.opens ++ [true] } := by
  obtain ⟨⟨tried, htried, hlen⟩, -, hfailed, -, -⟩ := hopening
  have hnew : streams.length ∉ t.opened := fun hmem => absurd (h.lt _ hmem) (Nat.lt_irrefl _)
  have hkept : Kept streams (streams ++ [⟨session, t.header, [], false⟩]) :=
    fun s d hd => ⟨d, Table.getElem?_concat.mpr (.inl hd), rfl, rfl⟩
  refine ⟨?_, ?_, fun s hs => ?_⟩
  · exact (List.concat_eq_append ▸ h.nodup.concat hnew :)
  · rw [DataReader.granted_tried htried hlen]
    exact List.rel_append (h.granted_of_kept hkept)
      (.cons ⟨_, Table.getElem?_concat.mpr (.inr ⟨rfl, rfl⟩), rfl, rfl⟩ .nil)
  · rw [hfailed] at hs
    cases hs

theorem Opening.openStream (h : Opened streams t reader)
    (hopening : Opening streams t reader (session :: todo)) :
    Opening (streams ++ [⟨session, t.header, [], false⟩]) (withStream t streams.length todo)
      { reader with opens := reader.opens ++ [true] } todo := by
  obtain ⟨⟨tried, htried, hlen⟩, htaken, hfailed, halive, hcarry⟩ := hopening
  have hnew : streams.length ∉ t.activeWriters := fun hmem =>
    absurd (h.lt _ ((halive.mem _).mp hmem).1) (Nat.lt_irrefl _)
  refine ⟨⟨tried ++ [session], by simp [htried], by simp [hlen]⟩, htaken, hfailed, ⟨?_, ?_⟩, ?_⟩
  · exact (List.concat_eq_append ▸ halive.nodup.concat hnew :)
  · intro s
    have hmem := halive.mem s
    simp only [hfailed, List.not_mem_nil, not_false_eq_true, and_true] at hmem
    simp [withStream, hmem, hfailed]
  · intro s hs
    rcases List.mem_append.mp hs with hs | hs
    · obtain ⟨session, hd⟩ := hcarry s hs
      exact ⟨session, Table.getElem?_concat.mpr (.inl hd)⟩
    · obtain rfl := List.mem_singleton.mp hs
      exact ⟨session, Table.getElem?_concat.mpr (.inr ⟨rfl, rfl⟩)⟩

theorem Opening.granted_skip (h : Opening streams t reader (session :: todo)) :
    { reader with opens := reader.opens ++ [false] : DataReader }.granted = reader.granted := by
  obtain ⟨tried, htried, hlen⟩ := h.todo
  rw [DataReader.granted_tried htried hlen]
  exact List.append_nil _

theorem Opening.skipStream (h : Opening streams t reader (session :: todo)) (pc : DataStreamPc) :
    Opening streams { t with pc } { reader with opens := reader.opens ++ [false] } todo := by
  obtain ⟨⟨tried, htried, hlen⟩, htaken, hfailed, halive, hcarry⟩ := h
  exact ⟨⟨tried ++ [session], by simp [htried], by simp [hlen]⟩, htaken, hfailed,
    ⟨halive.nodup, halive.mem⟩, hcarry⟩

theorem Opening.allOpened (h : Opening streams t reader []) (pc : DataStreamPc) :
    Even streams { t with pc } reader t.activeWriters false := by
  obtain ⟨⟨tried, htried, hlen⟩, htaken, -, halive, hcarry⟩ := h
  exact ⟨by simp [htried, hlen], ⟨halive.nodup, halive.mem⟩, htaken ▸ hcarry⟩

end Open

theorem Even.readEnd {ws : List StreamId} (h : Even streams t reader ws false)
    (hread : reader.read.1 = some none) (pc : DataStreamPc) :
    Finishing streams { t with pc } reader ws :=
  ⟨h.tried, hread, ⟨[], ⟨h.alive.nodup, h.alive.mem⟩, by simp [Carry]⟩, h.carry⟩

theorem Even.readFailed (h : Even streams t reader t.activeWriters false)
    (hread : reader.read.1 = none) (pc : DataStreamPc) :
    Dropping streams { t with pc } reader t.activeWriters :=
  ⟨h.tried, hread, ⟨h.alive.nodup, h.alive.mem⟩, List.Subset.refl _, h.carry.all⟩

theorem Even.readObject {ws : List StreamId} {object : RawObject}
    (h : Even streams t reader ws false) (hread : reader.read.1 = some (some object))
    (pc : DataStreamPc) : Writing streams { t with pc } reader.read.2 object ws [] := by
  obtain ⟨hsessions, hopens, hfailed⟩ := reader.read_writers
  refine ⟨by rw [hsessions, hopens, h.tried], ⟨h.alive.nodup, fun s => ?_⟩, by simp [Carry],
    reader.taken, DataReader.taken_read hread, h.carry⟩
  rw [hfailed]
  exact h.alive.mem s

section Write

variable {s : StreamId}

/-- A stream that is still to be written to is none of those that have been, nor is it there
twice. -/
theorem Alive.notMem {ws todo : List StreamId} (h : Alive t reader (ws ++ s :: todo)) :
    s ∉ ws ∧ s ∉ todo := by
  obtain ⟨hnew, -⟩ := List.nodup_cons.mp (List.nodup_middle.mp h.nodup)
  rwa [List.mem_append, not_or] at hnew

variable {object : RawObject} {todo stillActive : List StreamId}

theorem Writing.wrote (h : Writing streams t reader object (s :: todo) stillActive)
    (pc : DataStreamPc) :
    Writing (streams.modify s fun d => { d with objects := d.objects ++ [object] })
      { t with pc } reader object todo (stillActive ++ [s]) := by
  obtain ⟨htried, halive, hcarry, before, htaken, howed⟩ := h
  obtain ⟨hnew, hrest⟩ := halive.notMem
  rw [List.append_cons] at halive
  refine ⟨htried, ⟨halive.nodup, halive.mem⟩, ?_, before, htaken, ?_⟩
  · exact hcarry.snoc (fun a ha => howed a (by simp [List.mem_singleton.mp ha])) hnew
      fun session => by rw [htaken]
  · exact Carry.other (fun a ha => howed a (List.mem_cons_of_mem s ha)) hrest

theorem Writing.lost (h : Writing streams t reader object (s :: todo) stillActive)
    (pc : DataStreamPc) :
    Writing streams { t with pc } { reader with failed := reader.failed ++ [s] } object todo
      stillActive := by
  obtain ⟨htried, halive, hcarry, before, htaken, howed⟩ := h
  exact ⟨htried, ⟨halive.lost.nodup, halive.lost.mem⟩, hcarry, before, htaken,
    fun a ha => howed a (List.mem_cons_of_mem s ha)⟩

theorem Writing.written (h : Writing streams t reader object [] stillActive)
    {t' : DataStreamTask} (hheader : t'.header = t.header) (hopened : t'.opened = t.opened) :
    Even streams t' reader stillActive false := by
  obtain ⟨htried, halive, hcarry, -⟩ := h
  rw [List.append_nil] at halive
  exact ⟨htried, ⟨halive.nodup, hopened ▸ halive.mem⟩, hheader ▸ hcarry⟩

theorem Finishing.finished (h : Finishing streams t reader (s :: todo)) (pc : DataStreamPc) :
    Finishing (streams.modify s fun d => { d with finished := true }) { t with pc } reader
      todo := by
  obtain ⟨htried, hended, ⟨done, halive, hdone⟩, hcarry⟩ := h
  obtain ⟨hnew, hrest⟩ := halive.notMem
  rw [List.append_cons] at halive
  refine ⟨htried, hended, ⟨done ++ [s], ⟨halive.nodup, halive.mem⟩, ?_⟩, ?_⟩
  · exact hdone.snoc (fun a ha => hcarry a (by simp [List.mem_singleton.mp ha])) hnew
      fun session => rfl
  · exact Carry.other (fun a ha => hcarry a (List.mem_cons_of_mem s ha)) hrest

theorem Finishing.unfinished (h : Finishing streams t reader (s :: todo)) (pc : DataStreamPc) :
    Finishing streams { t with pc } { reader with failed := reader.failed ++ [s] } todo := by
  obtain ⟨htried, hended, ⟨done, halive, hdone⟩, hcarry⟩ := h
  refine ⟨htried, ?_, ⟨done, ⟨halive.lost.nodup, halive.lost.mem⟩, hdone⟩,
    fun a ha => hcarry a (List.mem_cons_of_mem s ha)⟩
  rw [← hended]
  exact DataReader.read_congr rfl rfl

theorem Finishing.allFinished (h : Finishing streams t reader []) (pc : DataStreamPc) :
    ∃ ws, Even streams { t with pc } reader ws true := by
  obtain ⟨htried, -, ⟨done, halive, hdone⟩, -⟩ := h
  rw [List.append_nil] at halive
  exact ⟨done, htried, ⟨halive.nodup, halive.mem⟩, hdone⟩

/-- A writer that is dropped has sent FIN, or has not. -/
theorem Dropping.dropped (h : Dropping streams t reader (s :: todo)) (pc : DataStreamPc)
    {streams' : List Downstream} (hstreams : streams' = streams ∨
      streams' = streams.modify s fun d => { d with finished := true }) :
    Dropping streams' { t with pc } reader todo := by
  obtain ⟨htried, hbroken, halive, htodo, hcarry⟩ := h
  refine ⟨htried, hbroken, ⟨halive.nodup, halive.mem⟩, (List.cons_subset.mp htodo).2,
    fun a ha => ?_⟩
  obtain ⟨session, finished, hd⟩ := hcarry a ha
  rcases hstreams with rfl | rfl
  · exact ⟨session, finished, hd⟩
  · by_cases hs : a = s
    · exact ⟨session, true, Table.getElem?_modify.mpr ⟨_, hd, by rw [if_pos hs]⟩⟩
    · exact ⟨session, finished, Table.getElem?_modify.mpr ⟨_, hd, by rw [if_neg hs]⟩⟩

end Write

end Phase

section Advance

variable {w w' : World} {i : Nat} {t t' : DataStreamTask} {reader reader' : DataReader}
  {input : Input} {streams' : List Downstream}

/-- The task writes to streams of its own on which nothing has failed. -/
theorem Advance.touches (h : Advance w t reader input t' reader' streams')
    (hphase : Phase w.streams t reader) : Touches w.streams streams' t t' reader := by
  cases h with
  | openStream hpc => exact .concat rfl rfl
  | wroteObject hpc =>
    rw [Phase, hpc] at hphase
    exact .modify hphase.alive (by simp) (fun _ => ⟨rfl, rfl⟩) rfl rfl
  | finished hpc =>
    rw [Phase, hpc] at hphase
    obtain ⟨done, halive, -⟩ := hphase.alive
    exact .modify halive (by simp) (fun _ => ⟨rfl, rfl⟩) rfl rfl
  | dropped hpc =>
    rw [Phase, hpc] at hphase
    exact .modify hphase.alive (hphase.todo List.mem_cons_self) (fun _ => ⟨rfl, rfl⟩) rfl rfl
  | _ => exact .same rfl rfl

theorem Advance.opened (h : Advance w t reader input t' reader' streams')
    (hrelaying : Relaying w.streams t reader) (htaken : reader.taken <+: reader'.taken) :
    Opened streams' t' reader' := by
  obtain ⟨-, hopened, hphase⟩ := hrelaying
  have htouches := h.touches hphase
  cases h with
  | lookup hpc hsessions =>
    rw [Phase, hpc] at hphase
    exact hopened.congr htouches rfl (by simp [DataReader.granted, hphase.opens]) rfl htaken
  | drained | drainEnd | readObject =>
    obtain ⟨hsessions, hopens, hfailed⟩ := reader.read_writers
    exact hopened.congr htouches rfl (by rw [DataReader.granted, hsessions, hopens]; rfl) hfailed
      htaken
  | openStream hpc =>
    rw [Phase, hpc] at hphase
    exact hopened.openStream hphase
  | skipStream hpc =>
    rw [Phase, hpc] at hphase
    exact hopened.congr htouches rfl hphase.granted_skip rfl htaken
  | lostWriter hpc =>
    rw [Phase, hpc] at hphase
    obtain ⟨-, halive, -, before, htaken, howed⟩ := hphase
    exact hopened.lost halive (by simp) (fun a ha => howed a (by simp [List.mem_singleton.mp ha]))
      (htaken ▸ List.prefix_append _ _) rfl rfl
  | unfinished hpc =>
    rw [Phase, hpc] at hphase
    obtain ⟨-, -, ⟨done, halive, -⟩, hcarry⟩ := hphase
    exact hopened.lost halive (by simp) (fun a ha => hcarry a (by simp [List.mem_singleton.mp ha]))
      (List.prefix_refl _) rfl rfl
  | _ => exact hopened.congr htouches rfl rfl rfl htaken

theorem Advance.phase (h : Advance w t reader input t' reader' streams')
    (hrelaying : Relaying w.streams t reader) : Phase streams' t' reader' := by
  obtain ⟨-, hopened, hphase⟩ := hrelaying
  cases h with
  | lookup hpc hsessions =>
    rw [Phase, hpc] at hphase
    exact hphase.lookup _
  | drained hpc hread =>
    rw [Phase, hpc] at hphase ⊢
    exact hphase.read rfl
  | drainEnd hpc =>
    rw [Phase, hpc] at hphase
    exact .inl (hphase.read rfl)
  | openStream hpc =>
    rw [Phase, hpc] at hphase
    exact hphase.openStream hopened
  | skipStream hpc =>
    rw [Phase, hpc] at hphase
    exact hphase.skipStream _
  | allOpened hpc =>
    rw [Phase, hpc] at hphase
    exact hphase.allOpened _
  | readFailed hpc hread =>
    rw [Phase, hpc] at hphase
    exact hphase.readFailed hread _
  | readEnd hpc hread =>
    rw [Phase, hpc] at hphase
    exact hphase.readEnd hread _
  | readObject hpc hread =>
    rw [Phase, hpc] at hphase
    exact hphase.readObject hread _
  | wroteObject hpc =>
    rw [Phase, hpc] at hphase
    exact hphase.wrote _
  | lostWriter hpc =>
    rw [Phase, hpc] at hphase
    exact hphase.lost _
  | objectWritten hpc =>
    rw [Phase, hpc] at hphase
    exact hphase.written rfl rfl
  | finished hpc =>
    rw [Phase, hpc] at hphase
    exact hphase.finished _
  | unfinished hpc =>
    rw [Phase, hpc] at hphase
    exact hphase.unfinished _
  | allFinished hpc =>
    rw [Phase, hpc] at hphase
    exact .inr (.inl ⟨hphase.ended, hphase.allFinished .returned⟩)
  | dropped hpc =>
    rw [Phase, hpc] at hphase
    exact hphase.dropped _ (.inr rfl)
  | droppedDead hpc =>
    rw [Phase, hpc] at hphase
    exact hphase.dropped _ (.inl rfl)
  | allDropped hpc =>
    rw [Phase, hpc] at hphase
    obtain ⟨htried, hbroken, halive, htodo, hcarry⟩ := hphase
    exact .inr (.inr ⟨htried, hbroken, ⟨halive.nodup, halive.mem⟩, htodo, hcarry⟩)

theorem Relaying.step (h : Relaying w.streams t reader) (ht : w.dataStreams[i]? = some t)
    (hstep : DataStreamStep w i t input w') (hmoves : reader.Moves w t input reader') :
    ∃ t', w'.dataStreams[i]? = some t' ∧ Relaying w'.streams t' reader' ∧
      Touches w.streams w'.streams t t' reader := by
  obtain ⟨t', ht', hmove⟩ := hstep.move ht
  have hadvance := hstep.advance ht ht' hmoves
  exact ⟨t', ht', ⟨hmoves.reads h.reads hmove.header, hadvance.opened h hmoves.taken,
    hadvance.phase h⟩, hadvance.touches h.phase⟩

end Advance

/-! ### The tasks of a network -/

/-- Every task relays its stream, and no stream to a subscriber is shared. -/
structure Forwarding (n : Network) : Prop where
  length : n.readers.length = n.world.dataStreams.length
  relaying : ∀ (i : Nat) (t : DataStreamTask) (reader : DataReader),
    n.world.dataStreams[i]? = some t → n.readers[i]? = some reader →
      Relaying n.world.streams t reader
  apart : ∀ (i j : Nat) (t u : DataStreamTask) (s : StreamId), n.world.dataStreams[i]? = some t →
    n.world.dataStreams[j]? = some u → s ∈ t.opened → s ∈ u.opened → i = j

/-- A task that has not looked its subscribers up. -/
theorem Relaying.accepted {streams : List Downstream} {content body : ByteStream}
    {header : SubgroupHeader} {headerBytes : Bytes} (connection : ConnectionId)
    (answers : List Answer) (senderSession : SessionId)
    (hread : readSubgroupHeader.Returns content (header, headerBytes) body) :
    Relaying streams { senderSession, header }
      { connection, answers, hasProperties := header.hasProperties, headerBytes, body,
        rest := body } where
  reads := ⟨rfl, ⟨content, hread⟩, nofun, .refl body⟩
  opened := ⟨List.nodup_nil, .nil, nofun⟩
  phase := (⟨rfl, rfl, rfl, rfl, rfl⟩ : Fresh _ _)

/-- The streams of another task are left as they are, and do not become the task's own. -/
theorem Forwarding.untouched {n : Network} (h : Forwarding n) {i j : Nat} {t t' u : DataStreamTask}
    {reader : DataReader} {streams' : List Downstream} (ht : n.world.dataStreams[i]? = some t)
    (hu : n.world.dataStreams[j]? = some u) (hne : j ≠ i)
    (htouches : Touches n.world.streams streams' t t' reader) :
    ∀ s ∈ u.opened, streams'[s]? = n.world.streams[s]? ∧ s ∉ t'.opened := by
  intro s hs
  obtain ⟨reader₀, hreader₀⟩ : ∃ reader₀, n.readers[j]? = some reader₀ := by
    have hlt := (List.getElem?_eq_some_iff.mp hu).1
    rw [← h.length] at hlt
    exact ⟨_, List.getElem?_eq_getElem hlt⟩
  have hlt := (h.relaying j u reader₀ hu hreader₀).opened.lt s hs
  have hother : s ∉ t.opened := fun hs' => hne (h.apart j i u t s hu ht hs hs')
  constructor
  · rw [List.getElem?_eq_getElem hlt]
    exact htouches.others s _ (List.getElem?_eq_getElem hlt) (.inl hother)
  · -- what the task has opened in this step is behind every other stream
    intro hs'
    rcases htouches.opened s hs' with hs' | hge
    · exact hother hs'
    · exact absurd hlt (Nat.not_lt.mpr hge)

section Step

variable {n n' : Network} {l : NetworkLabel}

theorem Forwarding.step_length (h : Forwarding n) (hstep : NetworkStep n l n') :
    n'.readers.length = n'.world.dataStreams.length := by
  cases hstep.dataChange with
  | same hstreams hdata hreaders => rw [hreaders, hdata, h.length]
  | accepted hl hlink hstream hconn hread hstreams hdata hreaders =>
    simp [hreaders, hdata, h.length]
  | moved hl ht hreader hdata hmoves hreaders => simp [hreaders, hdata.length, h.length]

theorem Forwarding.step_relaying (h : Forwarding n) (hstep : NetworkStep n l n') (j : Nat)
    (u : DataStreamTask) (reader₁ : DataReader) (hu : n'.world.dataStreams[j]? = some u)
    (hreader₁ : n'.readers[j]? = some reader₁) : Relaying n'.world.streams u reader₁ := by
  cases hstep.dataChange with
  | same hstreams hdata hreaders =>
    rw [hdata] at hu
    rw [hreaders] at hreader₁
    rw [hstreams]
    exact h.relaying j u reader₁ hu hreader₁
  | accepted hl hlink hstream hconn hread hstreams hdata hreaders =>
    rw [hdata] at hu
    rw [hreaders] at hreader₁
    rw [hstreams]
    rcases Table.getElem?_concat.mp hu with hu | ⟨rfl, rfl⟩
    · rcases Table.getElem?_concat.mp hreader₁ with hreader₁ | ⟨rfl, -⟩
      · exact h.relaying j u reader₁ hu hreader₁
      · rw [h.length] at hu
        simp at hu
    · rcases Table.getElem?_concat.mp hreader₁ with hreader₁ | ⟨-, rfl⟩
      · rw [← h.length] at hreader₁
        simp at hreader₁
      · exact .accepted _ _ _ hread
  | @moved i t reader reader' input hl ht hreader hdata hmoves hreaders =>
    obtain ⟨t', ht', hrelaying', htouches⟩ :=
      (h.relaying i t reader ht hreader).step ht hdata hmoves
    rw [hreaders] at hreader₁
    obtain ⟨reader₀, hreader₀, rfl⟩ := Table.getElem?_modify.mp hreader₁
    by_cases hne : j = i
    · subst hne
      obtain rfl := Option.mem_unique hu ht'
      rw [if_pos rfl]
      exact hrelaying'
    · rw [hdata.getElem?_other hne] at hu
      rw [if_neg hne]
      exact (h.relaying j u reader₀ hu hreader₀).congr htouches.kept fun s hs =>
        (h.untouched ht hu hne htouches s hs).1

theorem Forwarding.step_apart (h : Forwarding n) (hstep : NetworkStep n l n') (j k : Nat)
    (u v : DataStreamTask) (s : StreamId) (hu : n'.world.dataStreams[j]? = some u)
    (hv : n'.world.dataStreams[k]? = some v) (hs : s ∈ u.opened) (hs' : s ∈ v.opened) : j = k := by
  cases hstep.dataChange with
  | same hstreams hdata hreaders =>
    rw [hdata] at hu hv
    exact h.apart j k u v s hu hv hs hs'
  | accepted hl hlink hstream hconn hread hstreams hdata hreaders =>
    -- a new task has opened nothing
    rw [hdata] at hu hv
    rcases Table.getElem?_concat.mp hu with hu | ⟨-, rfl⟩
    · rcases Table.getElem?_concat.mp hv with hv | ⟨-, rfl⟩
      · exact h.apart j k u v s hu hv hs hs'
      · cases hs'
    · cases hs
  | @moved i t reader reader' input hl ht hreader hdata hmoves hreaders =>
    obtain ⟨t', ht', -, htouches⟩ := (h.relaying i t reader ht hreader).step ht hdata hmoves
    have own {j : Nat} {u : DataStreamTask} (hne : j ≠ i)
        (hu : n'.world.dataStreams[j]? = some u) : ∀ s ∈ u.opened, s ∉ t'.opened := by
      rw [hdata.getElem?_other hne] at hu
      exact fun s hs => (h.untouched ht hu hne htouches s hs).2
    by_cases hj : j = i
    · subst hj
      obtain rfl := Option.mem_unique hu ht'
      by_contra hne
      exact own (Ne.symm hne) hv s hs' hs
    · by_cases hk : k = i
      · subst hk
        obtain rfl := Option.mem_unique hv ht'
        exact absurd hs' (own hj hu s hs)
      · rw [hdata.getElem?_other hj] at hu
        rw [hdata.getElem?_other hk] at hv
        exact h.apart j k u v s hu hv hs hs'

theorem Forwarding.step (h : Forwarding n) (hstep : NetworkStep n l n') : Forwarding n' where
  length := h.step_length hstep
  relaying := h.step_relaying hstep
  apart := h.step_apart hstep

end Step

/-- Streams stay where they go to, in every step. -/
theorem Forwarding.kept {n n' : Network} {l : NetworkLabel} (h : Forwarding n)
    (hstep : NetworkStep n l n') : Kept n.world.streams n'.world.streams := by
  have same (hstreams : n'.world.streams = n.world.streams) :
      Kept n.world.streams n'.world.streams :=
    fun s d hd => ⟨d, hstreams ▸ hd, rfl, rfl⟩
  cases hstep.dataChange with
  | same hstreams => exact same hstreams
  | accepted hl hlink hstream hconn hread hstreams => exact same hstreams
  | moved hl ht hreader hdata hmoves hreaders =>
    obtain ⟨_, -, -, htouches⟩ := (h.relaying _ _ _ ht hreader).step ht hdata hmoves
    exact htouches.kept

theorem forwarding_of_reachable {n : Network} (h : network.Reachable n) : Forwarding n := by
  refine h.invariant ?_ fun n l n' hn hstep => hn.step (.of_step hstep)
  have hnone (i : Nat) (t : DataStreamTask) : network.init.world.dataStreams[i]? ≠ some t := by
    simp [network, Network.new, World.new]
  exact ⟨rfl, fun i t _ ht => absurd ht (hnone i t), fun i _ t _ _ ht => absurd ht (hnone i t)⟩

end Moqt.Relay
