import Moqt.Library.Table
import Moqt.Relay.Step

/-! Data streams on their way through the relay.  Every stream to a subscriber goes to a session
that the lookup by alias returned, in some state of the run, for the stream that it forwards. -/

namespace Moqt.Relay

open Library Wire

/-! ### Moves of a data stream -/

/-- What a step makes of the variables of a data stream's task. -/
structure DataMove (w : World) (t t' : DataStreamTask) : Prop where
  senderSession : t'.senderSession = t.senderSession
  header : t'.header = t.header
  opened : t.opened ⊆ t'.opened
  todo : ∀ (todo' : List MoqtSession), t'.pc = .openStreams todo' →
    (∃ todo, t.pc = .openStreams todo ∧ todo' ⊆ todo) ∨
      todo' = w.state.findSubscriberSessions t.senderSession t.header.trackAlias

theorem DataMove.refl (w : World) (t : DataStreamTask) : DataMove w t t :=
  ⟨rfl, rfl, List.Subset.refl _, fun todo' h => .inl ⟨todo', h, List.Subset.refl _⟩⟩

theorem World.updateData_self {w : World} {i : Nat} {t : DataStreamTask}
    (f : DataStreamTask → DataStreamTask) (ht : w.dataStreams[i]? = some t) :
    (w.updateData i f).dataStreams[i]? = some (f t) :=
  Table.getElem?_modify.mpr ⟨t, ht, by simp⟩

theorem World.updateData_other {w : World} {i j : Nat} {u : DataStreamTask}
    (f : DataStreamTask → DataStreamTask) (hne : j ≠ i) (hu : w.dataStreams[j]? = some u) :
    (w.updateData i f).dataStreams[j]? = some u :=
  Table.getElem?_modify.mpr ⟨u, hu, by simp [hne]⟩

theorem DataStreamStep.other {w w' : World} {i j : Nat} {t u : DataStreamTask} {input : Input}
    (h : DataStreamStep w i t input w') (hne : j ≠ i) (hu : w.dataStreams[j]? = some u) :
    w'.dataStreams[j]? = some u := by
  cases h with
  | drained hpc object => exact hu
  | openStream hpc => exact World.updateData_other _ hne (World.updateData_other _ hne hu)
  | _ => exact World.updateData_other _ hne hu

theorem DataStreamStep.absent {w w' : World} {i j : Nat} {t : DataStreamTask} {input : Input}
    (h : DataStreamStep w i t input w') (hj : w.dataStreams[j]? = none) :
    w'.dataStreams[j]? = none := by
  cases h <;> simp [World.gotoData, World.updateData, World.updateStream, World.openStream,
    List.getElem?_modify, hj]

theorem DataStreamStep.getElem?_other {w w' : World} {i j : Nat} {t : DataStreamTask}
    {input : Input} (h : DataStreamStep w i t input w') (hne : j ≠ i) :
    w'.dataStreams[j]? = w.dataStreams[j]? := by
  cases hj : w.dataStreams[j]? with
  | some u => exact h.other hne hj
  | none => exact h.absent hj

/-- The sessions to which the task has still to open a stream. -/
def DataStreamTask.toOpen (t : DataStreamTask) : List MoqtSession :=
  match t.pc with
  | .openStreams todo => todo
  | _ => []

/-- The sessions to which the task of the data stream `i` has still to open a stream. -/
def World.toOpen (w : World) (i : Nat) : List MoqtSession :=
  (w.dataStreams[i]?).elim [] (·.toOpen)

/-- The streams that the task of the data stream `i` has opened. -/
def World.openedBy (w : World) (i : Nat) : List StreamId :=
  (w.dataStreams[i]?).elim [] (·.opened)

theorem World.toOpen_of {w : World} {i : Nat} {t : DataStreamTask}
    (ht : w.dataStreams[i]? = some t) : w.toOpen i = t.toOpen := by
  rw [toOpen, ht, Option.elim_some]

theorem World.openedBy_of {w : World} {i : Nat} {t : DataStreamTask}
    (ht : w.dataStreams[i]? = some t) : w.openedBy i = t.opened := by
  rw [openedBy, ht, Option.elim_some]

/-- A step of a task leaves alone what the others open. -/
theorem DataStreamStep.opens {w w' : World} {i : Nat} {t t' : DataStreamTask} {input : Input}
    (h : DataStreamStep w i t input w') (ht' : w'.dataStreams[i]? = some t') :
    w'.toOpen = Function.update w.toOpen i t'.toOpen ∧
      w'.openedBy = Function.update w.openedBy i t'.opened := by
  constructor
  · refine (Function.update_eq_iff.mpr ⟨(World.toOpen_of ht').symm, fun j hj => ?_⟩).symm
    rw [World.toOpen, World.toOpen, h.getElem?_other hj]
  · refine (Function.update_eq_iff.mpr ⟨(World.openedBy_of ht').symm, fun j hj => ?_⟩).symm
    rw [World.openedBy, World.openedBy, h.getElem?_other hj]

theorem DataStreamStep.length {w w' : World} {i : Nat} {t : DataStreamTask} {input : Input}
    (h : DataStreamStep w i t input w') : w'.dataStreams.length = w.dataStreams.length := by
  cases h <;> simp [World.gotoData, World.updateData, World.updateStream, World.openStream]

theorem DataStreamStep.move {w w' : World} {i : Nat} {t : DataStreamTask} {input : Input}
    (h : DataStreamStep w i t input w') (ht : w.dataStreams[i]? = some t) :
    ∃ t', w'.dataStreams[i]? = some t' ∧ DataMove w t t' := by
  -- a task that goes to another point than `openStreams` has nothing left to open
  have past (t' : DataStreamTask) (hsender : t'.senderSession = t.senderSession)
      (hheader : t'.header = t.header) (hopened : t'.opened = t.opened)
      (hpc : ∀ todo', t'.pc ≠ .openStreams todo') : DataMove w t t' :=
    ⟨hsender, hheader, by rw [hopened]; exact List.Subset.refl _,
      fun todo' h => absurd h (hpc todo')⟩
  have stay (f : DataStreamTask → DataStreamTask) := World.updateData_self f ht
  cases h with
  | @lookup hpc hfree sessions hsessions =>
    refine ⟨_, stay _, rfl, rfl, List.Subset.refl _, fun todo' h => ?_⟩
    change (if sessions.isEmpty then DataStreamPc.drain else .openStreams sessions) = _ at h
    split at h
    · cases h
    · obtain rfl := DataStreamPc.openStreams.inj h
      exact .inr hsessions
  | drained hpc object => exact ⟨t, ht, .refl w t⟩
  | @openStream session todo hpc =>
    refine ⟨_, World.updateData_self _ (stay _), rfl, rfl, List.subset_append_left _ _,
      fun todo' h => ?_⟩
    obtain rfl := DataStreamPc.openStreams.inj h
    exact .inl ⟨_, hpc, List.subset_cons_self _ _⟩
  | @skipStream session todo hpc =>
    refine ⟨_, stay _, rfl, rfl, List.Subset.refl _, fun todo' h => ?_⟩
    obtain rfl := DataStreamPc.openStreams.inj h
    exact .inl ⟨_, hpc, List.subset_cons_self _ _⟩
  | _ => exact ⟨_, stay _, past _ rfl rfl rfl (by simp)⟩

theorem Step.dataMove {w w' : World} {l : Label} (h : Step w l w') {i : Nat} {t : DataStreamTask}
    (ht : w.dataStreams[i]? = some t) : ∃ t', w'.dataStreams[i]? = some t' ∧ DataMove w t t' := by
  cases h with
  | event hconn hstatus event =>
    cases event with
    | dataStream header => exact ⟨t, Table.getElem?_concat.mpr (.inl ht), .refl w t⟩
    | _ => exact ⟨t, ht, .refl w t⟩
  | subscribe _ h => cases h <;> exact ⟨t, ht, .refl w t⟩
  | @dataStream j t₀ input w' ht₀ h =>
    by_cases hij : i = j
    · subst hij
      obtain rfl := Option.mem_unique ht ht₀
      exact h.move ht
    · exact ⟨t, h.other hij ht, .refl w t⟩
  | _ => exact ⟨t, ht, .refl w t⟩

/-- A task of a data stream that is there after a step was there before, or has still to look its
subscribers up. -/
theorem Step.dataBefore {w w' : World} {l : Label} (h : Step w l w') {i : Nat}
    {t' : DataStreamTask} (ht' : w'.dataStreams[i]? = some t') :
    (∃ t, w.dataStreams[i]? = some t ∧ DataMove w t t') ∨ t'.pc = .lookup := by
  cases ht : w.dataStreams[i]? with
  | some t =>
    obtain ⟨t₁, ht₁, hmove⟩ := h.dataMove ht
    obtain rfl := Option.mem_unique ht' ht₁
    exact .inl ⟨t, rfl, hmove⟩
  | none =>
    right
    cases h with
    | event hconn hstatus event =>
      cases event with
      | dataStream header =>
        rcases Table.getElem?_concat.mp ht' with hold | ⟨-, rfl⟩
        · rw [ht] at hold
          cases hold
        · rfl
      | _ => exact absurd (ht.symm.trans ht') (by simp)
    | subscribe _ h => cases h <;> exact absurd (ht.symm.trans ht') (by simp)
    | dataStream ht₀ h => exact absurd ((h.absent ht).symm.trans ht') (by simp)
    | _ => exact absurd (ht.symm.trans ht') (by simp)

/-- Where a stream to a subscriber comes from: it was there, or the step opens it. -/
theorem Step.stream {w w' : World} {l : Label} (h : Step w l w') {s : StreamId} {d' : Downstream}
    (hd' : w'.streams[s]? = some d') :
    (∃ d, w.streams[s]? = some d ∧ d'.session = d.session ∧ d'.header = d.header) ∨
      ∃ (i : Nat) (t t' : DataStreamTask) (todo : List MoqtSession), w.dataStreams[i]? = some t ∧
        t.pc = .openStreams (d'.session :: todo) ∧ d'.header = t.header ∧
        w'.dataStreams[i]? = some t' ∧ t'.senderSession = t.senderSession ∧
        t'.header = t.header ∧ s ∈ t'.opened := by
  have same (h : w'.streams = w.streams) :
      ∃ d, w.streams[s]? = some d ∧ d'.session = d.session ∧ d'.header = d.header :=
    ⟨d', by rw [← h, hd'], rfl, rfl⟩
  have updated (id : StreamId) (f : Downstream → Downstream)
      (h : w'.streams = w.streams.modify id f)
      (hf : ∀ d, (f d).session = d.session ∧ (f d).header = d.header) :
      ∃ d, w.streams[s]? = some d ∧ d'.session = d.session ∧ d'.header = d.header := by
    rw [h] at hd'
    obtain ⟨d, hd, rfl⟩ := Table.getElem?_modify.mp hd'
    refine ⟨d, hd, ?_⟩
    split
    · exact hf d
    · exact ⟨rfl, rfl⟩
  cases h with
  | event hconn hstatus event => cases event <;> exact .inl (same rfl)
  | subscribe _ h => cases h <;> exact .inl (same rfl)
  | @dataStream i t input w' ht h =>
    cases h with
    | @openStream session todo hpc =>
      rcases Table.getElem?_concat.mp hd' with hold | ⟨rfl, rfl⟩
      · exact .inl ⟨d', hold, rfl, rfl⟩
      · refine .inr ⟨i, t, _, todo, ht, hpc, rfl,
          World.updateData_self _ (World.updateData_self _ ht), rfl, rfl, ?_⟩
        simp [World.gotoData, World.updateData]
    | wroteObject hpc => exact .inl (updated _ _ rfl fun _ => ⟨rfl, rfl⟩)
    | finished hpc => exact .inl (updated _ _ rfl fun _ => ⟨rfl, rfl⟩)
    | dropped hpc => exact .inl (updated _ _ rfl fun _ => ⟨rfl, rfl⟩)
    | _ => exact .inl (same rfl)
  | _ => exact .inl (same rfl)

/-! ### Lookups of a run -/

/-- The lookup for a stream of the publisher under the alias returned the session, in some state of
the run. -/
def LookedUp (ls : List Label) (publisher : SessionId) (trackAlias : UInt64)
    (session : MoqtSession) : Prop :=
  ∃ ls₁, ls₁ <+: ls ∧
    session ∈ (relay.run .new ls₁).state.findSubscriberSessions publisher trackAlias

theorem LookedUp.mono {ls ls' : List Label} {publisher : SessionId} {trackAlias : UInt64}
    {session : MoqtSession} (h : LookedUp ls publisher trackAlias session) (hls : ls <+: ls') :
    LookedUp ls' publisher trackAlias session := by
  obtain ⟨ls₁, hprefixed, hmem⟩ := h
  exact ⟨ls₁, hprefixed.trans hls, hmem⟩

/-- What a run has opened, and what it is about to open, it has looked up. -/
structure Forwards (ls : List Label) : Prop where
  todo : ∀ (i : Nat) (t : DataStreamTask) (todo : List MoqtSession),
    (relay.run .new ls).dataStreams[i]? = some t → t.pc = .openStreams todo →
      ∀ session ∈ todo, LookedUp ls t.senderSession t.header.trackAlias session
  opened : ∀ (s : StreamId) (d : Downstream), (relay.run .new ls).streams[s]? = some d →
    ∃ (i : Nat) (t : DataStreamTask), (relay.run .new ls).dataStreams[i]? = some t ∧
      s ∈ t.opened ∧ d.header = t.header ∧
      LookedUp ls t.senderSession t.header.trackAlias d.session

theorem Forwards.step {ls : List Label} {l : Label} {w' : World} (h : Forwards ls)
    (hstep : relay.step (relay.run .new ls) l = some w') : Forwards (ls ++ [l]) := by
  have hls : ls <+: ls ++ [l] := List.prefix_append ls [l]
  have hrun : relay.run .new (ls ++ [l]) = w' := by
    rw [Machine.run_append, Machine.run_cons, Machine.run_nil, Machine.next_of_step hstep]
  have hstep := Step.of_step hstep
  constructor
  · intro i t' todo' ht' hpc' session hmem
    rw [hrun] at ht'
    rcases hstep.dataBefore ht' with ⟨t, ht, hmove⟩ | hlookup
    · rw [hmove.senderSession, hmove.header]
      rcases hmove.todo todo' hpc' with ⟨todo, hpc, hsubset⟩ | rfl
      · exact (h.todo i t todo ht hpc session (hsubset hmem)).mono hls
      · exact ⟨ls, hls, hmem⟩
    · rw [hlookup] at hpc'
      cases hpc'
  · intro s d' hd'
    rw [hrun] at hd'
    rw [hrun]
    rcases hstep.stream hd' with ⟨d, hd, hsession, hheader⟩ |
      ⟨i, t, t', todo, ht, hpc, hheader, ht', hsender, hheader', hs⟩
    · obtain ⟨i, t, ht, hs, hsame, hlooked⟩ := h.opened s d hd
      obtain ⟨t', ht', hmove⟩ := hstep.dataMove ht
      refine ⟨i, t', ht', hmove.opened hs, ?_, ?_⟩
      · rw [hheader, hsame, hmove.header]
      · rw [hsession, hmove.senderSession, hmove.header]
        exact hlooked.mono hls
    · refine ⟨i, t', ht', hs, hheader.trans hheader'.symm, ?_⟩
      rw [hsender, hheader']
      exact (h.todo i t _ ht hpc _ (by simp)).mono hls

theorem Forwards.of_run (ls : List Label) : Forwards ls := by
  refine relay.history ?_ (fun ls l w' h hstep _ => h.step hstep) ?_ ls
  · constructor
    · intro i t todo ht
      simp [relay, World.new] at ht
    · intro s d hd
      simp [relay, World.new] at hd
  · intro ls l ih hrun
    have hrun : relay.run .new (ls ++ [l]) = relay.run .new ls := hrun
    have hls : ls <+: ls ++ [l] := List.prefix_append ls [l]
    constructor
    · intro i t todo ht hpc session hmem
      rw [hrun] at ht
      exact (ih.todo i t todo ht hpc session hmem).mono hls
    · intro s d hd
      rw [hrun] at hd ⊢
      obtain ⟨i, t, ht, hs, hheader, hlooked⟩ := ih.opened s d hd
      exact ⟨i, t, ht, hs, hheader, hlooked.mono hls⟩

end Moqt.Relay
