import Moqt.Library.Table
import Moqt.Pub.Mapping

/-! The publisher on a connection that refuses something.  Whatever is refused, what has been done
is a front of what the frames ask for, and the stream that is open may have been finished behind
it: that is what dropping its writer does.  So a stream carries a front of its group, in every
run. -/

namespace Moqt.Pub

open Library Wire

variable {t : Transport}

/-! ### Operations that fail -/

theorem perform_eq_error {event : StreamEvent} {e : String} {c c' : Connection}
    (h : perform t event c = .error e c') : c'.events = c.events := by
  unfold perform at h
  split at h
  next =>
    cases h
    rfl
  next => cases h

theorem openUni_eq_error {e : String} {c c' : Connection} (h : openUni t c = .error e c') :
    c'.events = c.events := by
  rcases bind_eq_error h with hget | ⟨_, _, hget, h⟩
  · cases hget
  obtain ⟨rfl, rfl⟩ := get_eq_ok.mp hget
  rcases bind_eq_error h with hopen | ⟨_, _, -, h⟩
  · exact perform_eq_error hopen
  · cases h

/-- The stream may have been opened, but nothing has been written to it. -/
theorem openSubgroup_eq_error {trackAlias groupId subgroupId : UInt64} {e : String}
    {c c' : Connection} (h : openSubgroup t trackAlias groupId subgroupId c = .error e c') :
    c'.events = c.events ∨ c'.events = c.events ++ [⟨c.streams, .openUni⟩] := by
  rcases bind_eq_error h with hopen | ⟨stream, mid, hopen, h⟩
  · exact .inl (openUni_eq_error hopen)
  obtain ⟨-, rfl, rfl⟩ := openUni_eq_ok hopen
  rcases bind_eq_error h with hwrite | ⟨_, _, -, h⟩
  · exact .inr (perform_eq_error hwrite)
  · cases h

theorem finish_eq_error {group : SubgroupWriter} {e : String} {c c' : Connection}
    (h : group.finish t c = .error e c') : c'.events = c.events := by
  unfold SubgroupWriter.finish at h
  split at h
  next => cases h
  next =>
    rcases bind_eq_error h with hperform | ⟨_, _, -, h⟩
    · exact perform_eq_error hperform
    · cases h

theorem close_eq_error {group : SubgroupWriter} {e : String} {c c' : Connection}
    (h : group.close t c = .error e c') : c'.events = c.events := by
  rcases bind_eq_error h with hfinish | ⟨_, _, -, h⟩
  · exact finish_eq_error hfinish
  · cases h

/-- Dropping a writer finishes its stream, or does nothing. -/
theorem drop_events (stream : Nat) (c : Connection) :
    (SubgroupWriter.drop t ⟨stream, false⟩ c).events = c.events ∨
      (SubgroupWriter.drop t ⟨stream, false⟩ c).events = c.events ++ [⟨stream, .finish⟩] := by
  unfold SubgroupWriter.drop
  split
  next group c' hfinish =>
    obtain ⟨_, mid, hperform, h⟩ := bind_eq_ok.mp hfinish
    obtain ⟨-, rfl⟩ := perform_eq_ok hperform
    obtain ⟨-, rfl⟩ := pure_eq_ok.mp h
    exact .inr rfl
  next e c' hfinish => exact .inl (finish_eq_error hfinish)

/-! ### Fronts of a script -/

/-- What has been done of a script that was given up: a front of it, and perhaps the end of a stream
that is open in the front. -/
inductive Cut (script : List StreamEvent) : List StreamEvent → Prop
  | front {events : List StreamEvent} (h : events <+: script) : Cut script events
  | dropped {events : List StreamEvent} {stream : Nat} (h : events <+: script)
      (hopen : ⟨stream, .openUni⟩ ∈ events) (hunfinished : ⟨stream, .finish⟩ ∉ events) :
    Cut script (events ++ [⟨stream, .finish⟩])

theorem openEvents_isPrefix (groupId : Nat) (group more : List IvfFrame) :
    openEvents groupId group <+: openEvents groupId (group ++ more) := by
  simp [openEvents, List.cons_prefix_cons]

theorem stream_of_mem_openEvents {groupId : Nat} {group : List IvfFrame} {event : StreamEvent}
    (h : event ∈ openEvents groupId group) : event.stream = groupId ∧ event.op ≠ .finish := by
  simp only [openEvents, List.mem_cons, List.mem_map] at h
  rcases h with rfl | rfl | ⟨frame, -, rfl⟩ <;> simp

theorem stream_of_mem_groupEvents {groupId : Nat} {group : List IvfFrame} {event : StreamEvent}
    (h : event ∈ groupEvents groupId group) : event.stream = groupId := by
  rcases List.mem_append.mp h with h | h
  · exact (stream_of_mem_openEvents h).1
  · rw [List.mem_singleton.mp h]

theorem groupsEvents_append (closed : List (List IvfFrame)) (group : List IvfFrame)
    (rest : List (List IvfFrame)) : groupsEvents closed ++ groupEvents closed.length group <+:
      groupsEvents (closed ++ group :: rest) := by
  have hall : (closed ++ group :: rest).mapIdx groupEvents =
      (closed ++ [group]).mapIdx groupEvents ++
        rest.mapIdx fun i => groupEvents (i + (closed ++ [group]).length) := by
    rw [List.append_cons, List.mapIdx_append]
  rw [← groupsEvents_concat, groupsEvents, groupsEvents, hall, List.flatten_append]
  exact List.prefix_append _ _

theorem stream_lt_of_mem_groupsEvents {groups : List (List IvfFrame)} {event : StreamEvent}
    (h : event ∈ groupsEvents groups) : event.stream < groups.length := by
  obtain ⟨events, hevents, hmem⟩ := List.mem_flatten.mp h
  obtain ⟨i, hi, rfl⟩ := List.mem_mapIdx.mp hevents
  rw [stream_of_mem_groupEvents hmem]
  exact hi

section Script

variable {closed : List (List IvfFrame)} {group done : List IvfFrame} {frame : IvfFrame}
  {s s' : Sender} {c c' : Connection} {e : String}

/-- What has been sent of the groups up to some frame is a front of what all frames ask for. -/
theorem openEvents_isPrefix_script (h : groups IvfFrame.isKeyframe done = closed ++ [group])
    (more : List IvfFrame) : groupsEvents closed ++ openEvents closed.length group <+:
      groupsEvents (groups IvfFrame.isKeyframe (done ++ more)) := by
  obtain ⟨front, rest, hgroups⟩ := groups_append h more
  rw [hgroups]
  refine List.IsPrefix.trans ?_ (groupsEvents_append closed (group ++ front) rest)
  rw [List.prefix_append_right_inj]
  exact (openEvents_isPrefix closed.length group front).trans (List.prefix_append _ _)

/-- The state behind `closeGroup`: no group is open, or the one is that the frame goes on with. -/
theorem Sent.closeGroup (h : Sent done s c) (hrun : s.closeGroup t frame c = .ok s' c') :
    ∃ closed group, groups IvfFrame.isKeyframe (done ++ [frame]) = closed ++ [group ++ [frame]] ∧
      (group = [] ∧ Between closed s' c' ∨ Within closed group s' c') := by
  cases h with
  | none hempty hsender hconnection =>
    subst hempty hsender hconnection
    obtain ⟨rfl, rfl⟩ := closeGroup_new hrun
    exact ⟨[], [], groups_singleton, .inl ⟨rfl, between_new⟩⟩
  | @some closed group hgroups hwithin =>
    cases hkey : frame.isKeyframe with
    | true =>
      refine ⟨closed ++ [group], [], ?_, .inl ⟨rfl, hwithin.closeGroup hkey hrun⟩⟩
      rw [groups_concat_start done hkey, hgroups, List.nil_append]
    | false =>
      exact ⟨closed, group, groups_concat hkey hgroups,
        .inr (hwithin.closeGroup_of_inter hkey hrun)⟩

theorem closeGroup_eq_error (hrun : s.closeGroup t frame c = .error e c') :
    c'.events = c.events := by
  unfold Sender.closeGroup at hrun
  split at hrun
  next =>
    split at hrun
    next =>
      rcases bind_eq_error hrun with hclose | ⟨_, _, -, h⟩
      · exact close_eq_error hclose
      · cases h
    next => cases hrun
  next => cases hrun

theorem Between.openGroup_fails (h : Between closed s c)
    (hrun : s.openGroup t c = .error e c') : c'.events = groupsEvents closed ∨
      c'.events = groupsEvents closed ++ [⟨closed.length, .openUni⟩] := by
  simp only [Sender.openGroup, h.currentGroup] at hrun
  rcases bind_eq_error hrun with hopen | ⟨_, _, -, hrun⟩
  · have hevents := openSubgroup_eq_error hopen
    rwa [h.connection] at hevents
  · cases hrun

theorem Within.openGroup_ok (h : Within closed group s c) : s.openGroup t c ≠ .error e c' := by
  intro hrun
  simp only [Sender.openGroup, h.currentGroup] at hrun
  cases hrun

theorem Within.writeFrame_fails (h : Within closed group s c)
    (hrun : s.writeFrame t frame c = .error e c') :
    c'.events = groupsEvents closed ++ openEvents closed.length group ∨
      c'.events = groupsEvents closed ++ openEvents closed.length group ++
        [⟨closed.length, .finish⟩] := by
  simp only [Sender.writeFrame, h.currentGroup] at hrun
  rcases bind_eq_error hrun with hwrite | ⟨_, _, -, hrun⟩
  · obtain ⟨mid, hperform, rfl⟩ := onError_eq_error.mp hwrite
    have hevents : mid.events = c.events := perform_eq_error hperform
    have hdrop := drop_events (t := t) closed.length mid
    rwa [hevents, h.connection] at hdrop
  · cases hrun

theorem Within.closeLast_fails (h : Within closed group s c)
    (hrun : s.closeLast t c = .error e c') :
    c'.events = groupsEvents closed ++ openEvents closed.length group := by
  simp only [Sender.closeLast, h.currentGroup] at hrun
  rcases bind_eq_error hrun with hclose | ⟨_, _, -, hrun⟩
  · rw [close_eq_error hclose, h.connection]
  · cases hrun

/-- The stream of the open group is open, and not finished. -/
theorem cut_dropped {script : List StreamEvent}
    (h : groupsEvents closed ++ openEvents closed.length group <+: script) :
    Cut script (groupsEvents closed ++ openEvents closed.length group ++
      [⟨closed.length, .finish⟩]) := by
  refine .dropped h (List.mem_append_right _ (by simp [openEvents])) fun hmem => ?_
  rcases List.mem_append.mp hmem with hmem | hmem
  · exact absurd (stream_lt_of_mem_groupsEvents hmem) (Nat.lt_irrefl _)
  · exact (stream_of_mem_openEvents hmem).2 rfl

theorem Sent.step_fails (h : Sent done s c) (hrun : s.step t frame c = .error e c')
    (more : List IvfFrame) :
    Cut (groupsEvents (groups IvfFrame.isKeyframe (done ++ frame :: more))) c'.events := by
  have hscript := List.append_cons done frame more
  unfold Sender.step at hrun
  rcases bind_eq_error hrun with hclose | ⟨s₁, c₁, hclose, hrun⟩
  · rw [closeGroup_eq_error hclose]
    cases h with
    | none hempty hsender hconnection =>
      subst hconnection
      exact .front (List.nil_prefix)
    | some hgroups hwithin =>
      rw [hwithin.connection]
      exact .front (openEvents_isPrefix_script hgroups (frame :: more))
  obtain ⟨closed, group, hgroups, hstate⟩ := h.closeGroup hclose
  have hfront := openEvents_isPrefix_script hgroups more
  rw [← hscript] at hfront
  -- without the frame, the front is shorter
  have hshort : groupsEvents closed ++ openEvents closed.length group <+:
      groupsEvents closed ++ openEvents closed.length (group ++ [frame]) :=
    (List.prefix_append_right_inj _).mpr (openEvents_isPrefix closed.length group [frame])
  rcases bind_eq_error hrun with hopen | ⟨s₂, c₂, hopen, hwrite⟩
  · rcases hstate with ⟨rfl, hbetween⟩ | hwithin
    · rcases hbetween.openGroup_fails hopen with hevents | hevents
      · rw [hevents]
        exact .front ((List.prefix_append _ _).trans hfront)
      · rw [hevents]
        refine .front (List.IsPrefix.trans ?_ hfront)
        rw [List.prefix_append_right_inj]
        exact ⟨_, rfl⟩
    · exact absurd hopen hwithin.openGroup_ok
  · have hwithin : Within closed group s₂ c₂ := by
      rcases hstate with ⟨rfl, hbetween⟩ | hwithin
      · exact hbetween.openGroup hopen
      · exact hwithin.openGroup hopen
    rcases hwithin.writeFrame_fails hwrite with hevents | hevents
    · rw [hevents]
      exact .front (hshort.trans hfront)
    · rw [hevents]
      exact cut_dropped (hshort.trans hfront)

end Script

/-- What the publisher leaves behind: all that the frames ask for, or a front of it. -/
def Leaves (frames : List IvfFrame) : EStateM.Result String Connection UInt64 → Prop
  | .ok _ c => c.events = groupsEvents (groups IvfFrame.isKeyframe frames)
  | .error _ c => Cut (groupsEvents (groups IvfFrame.isKeyframe frames)) c.events

theorem leaves_sendFrames (t : Transport) (frames : List IvfFrame) :
    Leaves frames (sendFrames t frames .new) := by
  cases hrun : sendFrames t frames .new with
  | ok count c =>
    obtain ⟨-, rfl⟩ := sendFrames_eq_ok hrun
    exact rfl
  | error e c =>
    rcases bind_eq_error hrun with hloop | ⟨s, mid, hloop, hlast⟩
    · have hnone : Sent [] .new .new := .none rfl rfl rfl
      obtain ⟨front, frame, rest, s, mid, rfl, hsent, hfails⟩ :=
        foldlM_fails (P := Sent) (fun _ _ _ _ _ _ h hstep => h.step hstep) hnone hloop
      exact hsent.step_fails hfails rest
    · cases sent_of_run hloop with
      | none hempty hsender hconnection =>
        subst hsender
        cases hlast
      | some hgroups hwithin =>
        have hfront := openEvents_isPrefix_script hgroups []
        rw [List.append_nil] at hfront
        show Cut _ c.events
        rw [hwithin.closeLast_fails hlast]
        exact .front hfront

/-! ### What the streams carry -/

/-- The bytes that an operation writes. -/
def StreamOp.bytes : StreamOp → Bytes
  | .writeAll buf => buf
  | _ => []

/-- The bytes that have been written to a stream. -/
def writtenTo (stream : Nat) (events : List StreamEvent) : Bytes :=
  events.flatMap fun event => if event.stream = stream then event.op.bytes else []

/-- The bytes of a group: the header of its stream, and its payloads as objects. -/
def groupBytes (groupId : Nat) (payloads : List Bytes) : Bytes :=
  (subgroupHeader 1 groupId.toUInt64 0).encode ++
    payloads.flatMap fun payload => objectBytes (objectHeader payload) payload

theorem writtenTo_append (stream : Nat) (events more : List StreamEvent) :
    writtenTo stream (events ++ more) = writtenTo stream events ++ writtenTo stream more :=
  List.flatMap_append

theorem writtenTo_finish (stream k : Nat) (events : List StreamEvent) :
    writtenTo stream (events ++ [⟨k, .finish⟩]) = writtenTo stream events := by
  simp [writtenTo, StreamOp.bytes]

theorem writtenTo_of_other {stream : Nat} {events : List StreamEvent}
    (h : ∀ event ∈ events, event.stream ≠ stream) : writtenTo stream events = [] := by
  rw [writtenTo, List.flatMap_eq_nil_iff]
  intro event hevent
  rw [if_neg (h event hevent)]

theorem writtenTo_isPrefix {events more : List StreamEvent} (stream : Nat)
    (h : events <+: more) : writtenTo stream events <+: writtenTo stream more := by
  obtain ⟨rest, rfl⟩ := h
  rw [writtenTo_append]
  exact List.prefix_append _ _

theorem writtenTo_groupEvents (groupId : Nat) (group : List IvfFrame) :
    writtenTo groupId (groupEvents groupId group) =
      groupBytes groupId (group.map IvfFrame.data) := by
  rw [groupEvents, writtenTo_finish]
  simp [writtenTo, openEvents, groupBytes, StreamOp.bytes, List.flatMap_map]

/-- The stream of a group carries the group. -/
theorem writtenTo_groupsEvents {groups : List (List IvfFrame)} {g : Nat} {group : List IvfFrame}
    (h : groups[g]? = some group) :
    writtenTo g (groupsEvents groups) = groupBytes g (group.map IvfFrame.data) := by
  induction groups using List.reverseRecOn with
  | nil => cases h
  | append_singleton closed last ih =>
    rw [groupsEvents_concat, writtenTo_append]
    rcases Table.getElem?_concat.mp h with hold | ⟨rfl, rfl⟩
    · have hlt : g < closed.length := (List.getElem?_eq_some_iff.mp hold).1
      have hother : writtenTo g (groupEvents closed.length last) = [] :=
        writtenTo_of_other fun event hevent => by
          rw [stream_of_mem_groupEvents hevent]
          omega
      rw [ih hold, hother, List.append_nil]
    · have hother : writtenTo closed.length (groupsEvents closed) = [] :=
        writtenTo_of_other fun event hevent =>
          Nat.ne_of_lt (stream_lt_of_mem_groupsEvents hevent)
      rw [hother, writtenTo_groupEvents, List.nil_append]

/-- What has been done behind a run, whatever its result. -/
def eventsOf : EStateM.Result String Connection UInt64 → List StreamEvent
  | .ok _ c => c.events
  | .error _ c => c.events

theorem Leaves.stream_lt {frames : List IvfFrame} {r : EStateM.Result String Connection UInt64}
    (h : Leaves frames r) {event : StreamEvent} (hevent : event ∈ eventsOf r) :
    event.stream < (groups IvfFrame.isKeyframe frames).length := by
  cases r with
  | ok count c =>
    rw [eventsOf, show c.events = _ from h] at hevent
    exact stream_lt_of_mem_groupsEvents hevent
  | error e c =>
    have hcut : Cut _ c.events := h
    rw [eventsOf] at hevent
    generalize c.events = events at hcut hevent
    cases hcut with
    | front hfront => exact stream_lt_of_mem_groupsEvents (hfront.mem hevent)
    | @dropped events stream hfront hopen =>
      rcases List.mem_append.mp hevent with hold | hlast
      · exact stream_lt_of_mem_groupsEvents (hfront.mem hold)
      · have hlt := stream_lt_of_mem_groupsEvents (hfront.mem hopen)
        rw [List.mem_singleton.mp hlast]
        exact hlt

/-- Where bytes have been written to a stream, there is a group for it. -/
theorem Leaves.exists_group {frames : List IvfFrame}
    {r : EStateM.Result String Connection UInt64} (h : Leaves frames r) {stream : Nat}
    (hbytes : writtenTo stream (eventsOf r) ≠ []) :
    ∃ group, (groups IvfFrame.isKeyframe frames)[stream]? = some group := by
  by_contra hnone
  refine hbytes (writtenTo_of_other fun event hevent heq => hnone ?_)
  have hlt := heq ▸ h.stream_lt hevent
  exact ⟨_, List.getElem?_eq_getElem hlt⟩

/-- In every run, a stream carries a front of its group. -/
theorem Leaves.writtenTo {frames : List IvfFrame}
    {r : EStateM.Result String Connection UInt64} (h : Leaves frames r) {g : Nat}
    {group : List IvfFrame} (hgroup : (groups IvfFrame.isKeyframe frames)[g]? = some group) :
    writtenTo g (eventsOf r) <+: groupBytes g (group.map IvfFrame.data) := by
  rw [← writtenTo_groupsEvents hgroup]
  cases r with
  | ok count c =>
    rw [eventsOf, show c.events = _ from h]
  | error e c =>
    have hcut : Cut _ c.events := h
    rw [eventsOf]
    generalize c.events = events at hcut
    cases hcut with
    | front hfront => exact writtenTo_isPrefix g hfront
    | dropped hfront =>
      rw [writtenTo_finish]
      exact writtenTo_isPrefix g hfront

end Moqt.Pub
