import Moqt.Pub.Publisher

/-! How `send_from_stdin` maps frames to groups: the groups that it opens are those of its
keyframes, each on a stream that is finished before the next one is opened. -/

namespace Moqt.Pub

open Library Wire

variable {t : Transport}

/-! ### Operations -/

theorem perform_eq_ok {event : StreamEvent} {u : Unit} {c c' : Connection}
    (h : perform t event c = .ok u c') :
    t.refuses c event = none ∧ c' = ⟨c.streams, c.events ++ [event], c.refused⟩ := by
  unfold perform at h
  split at h
  next => cases h
  next haccepts =>
    cases h
    exact ⟨haccepts, rfl⟩

theorem openUni_eq_ok {stream : Nat} {c c' : Connection} (h : openUni t c = .ok stream c') :
    c.streams < 2 ^ 60 ∧ stream = c.streams ∧
      c' = ⟨c.streams + 1, c.events ++ [⟨c.streams, .openUni⟩], c.refused⟩ := by
  obtain ⟨_, _, hget, h⟩ := bind_eq_ok.mp h
  obtain ⟨rfl, rfl⟩ := get_eq_ok.mp hget
  obtain ⟨_, _, hopen, h⟩ := bind_eq_ok.mp h
  obtain ⟨haccepts, rfl⟩ := perform_eq_ok hopen
  obtain ⟨_, _, hmodify, h⟩ := bind_eq_ok.mp h
  obtain rfl := modify_eq_ok.mp hmodify
  obtain ⟨rfl, rfl⟩ := pure_eq_ok.mp h
  refine ⟨?_, rfl, rfl⟩
  by_contra hlarge
  have hrefuses := t.bounded c (by omega)
  rw [haccepts] at hrefuses
  cases hrefuses

/-- A subgroup gets the next stream, which starts with its header. -/
theorem openSubgroup_eq_ok {trackAlias groupId subgroupId : UInt64} {group : SubgroupWriter}
    {c c' : Connection} (h : openSubgroup t trackAlias groupId subgroupId c = .ok group c') :
    c.streams < 2 ^ 60 ∧ group = ⟨c.streams, false⟩ ∧
      c' = ⟨c.streams + 1, c.events ++ [⟨c.streams, .openUni⟩,
        ⟨c.streams, .writeAll (subgroupHeader trackAlias groupId subgroupId).encode⟩],
        c.refused⟩ := by
  obtain ⟨_, _, hopen, h⟩ := bind_eq_ok.mp h
  obtain ⟨hbound, rfl, rfl⟩ := openUni_eq_ok hopen
  obtain ⟨_, _, hwrite, h⟩ := bind_eq_ok.mp h
  obtain ⟨-, rfl⟩ := perform_eq_ok hwrite
  obtain ⟨rfl, rfl⟩ := pure_eq_ok.mp h
  exact ⟨hbound, rfl, by simp⟩

/-- A stream is finished once: dropping the writer does nothing. -/
theorem close_eq_ok {stream : Nat} {u : Unit} {c c' : Connection}
    (h : SubgroupWriter.close t ⟨stream, false⟩ c = .ok u c') :
    c' = ⟨c.streams, c.events ++ [⟨stream, .finish⟩], c.refused⟩ := by
  obtain ⟨group, _, hfinish, hdrop⟩ := bind_eq_ok.mp h
  obtain ⟨_, _, hperform, hreturn⟩ := bind_eq_ok.mp hfinish
  obtain ⟨-, rfl⟩ := perform_eq_ok hperform
  obtain ⟨rfl, rfl⟩ := pure_eq_ok.mp hreturn
  obtain rfl := modify_eq_ok.mp hdrop
  rfl

/-! ### Groups -/

/-- What is done with the stream of a group before it is finished. -/
def openEvents (groupId : Nat) (group : List IvfFrame) : List StreamEvent :=
  ⟨groupId, .openUni⟩ :: ⟨groupId, .writeAll (subgroupHeader 1 groupId.toUInt64 0).encode⟩ ::
    group.map fun frame =>
      ⟨groupId, .writeAll (objectBytes (objectHeader frame.data) frame.data)⟩

/-- What is done for a group.  Its ID is the number of its stream too. -/
def groupEvents (groupId : Nat) (group : List IvfFrame) : List StreamEvent :=
  openEvents groupId group ++ [⟨groupId, .finish⟩]

/-- What is done for the groups 0, 1, … in order. -/
def groupsEvents (groups : List (List IvfFrame)) : List StreamEvent :=
  (groups.mapIdx groupEvents).flatten

theorem openEvents_concat (groupId : Nat) (group : List IvfFrame) (frame : IvfFrame) :
    openEvents groupId (group ++ [frame]) = openEvents groupId group ++
      [⟨groupId, .writeAll (objectBytes (objectHeader frame.data) frame.data)⟩] := by
  simp [openEvents]

theorem groupsEvents_concat (groups : List (List IvfFrame)) (group : List IvfFrame) :
    groupsEvents (groups ++ [group]) = groupsEvents groups ++ groupEvents groups.length group := by
  simp [groupsEvents, List.mapIdx_concat]

/-- No group is open. -/
structure Between (closed : List (List IvfFrame)) (s : Sender) (c : Connection) : Prop where
  groupId : s.groupId = closed.length.toUInt64
  objectId : s.objectId = 0
  currentGroup : s.currentGroup = none
  streamCount : s.streamCount = closed.length.toUInt64
  connection : c = ⟨closed.length, groupsEvents closed, []⟩

/-- A group is open behind the closed ones. -/
structure Within (closed : List (List IvfFrame)) (group : List IvfFrame) (s : Sender)
    (c : Connection) : Prop where
  groupId : s.groupId = closed.length.toUInt64
  objectId : s.objectId = group.length.toUInt64
  currentGroup : s.currentGroup = some ⟨closed.length, false⟩
  streamCount : s.streamCount = closed.length.toUInt64
  groupStarted : s.groupStarted = true
  connection : c = ⟨closed.length + 1, groupsEvents closed ++ openEvents closed.length group, []⟩
  bounded : closed.length < 2 ^ 60

theorem toUInt64_length_concat {α : Type} (items : List α) (item : α) :
    items.length.toUInt64 + 1 = (items ++ [item]).length.toUInt64 := by
  simp

section Rules

variable {c c' : Connection} {closed : List (List IvfFrame)} {group : List IvfFrame}
  {s s' : Sender} {frame : IvfFrame}

theorem between_new : Between [] .new .new where
  groupId := rfl
  objectId := rfl
  currentGroup := rfl
  streamCount := rfl
  connection := rfl

theorem Between.openGroup (h : Between closed s c) (hrun : s.openGroup t c = .ok s' c') :
    Within closed [] s' c' := by
  simp only [Sender.openGroup, h.currentGroup, bind_eq_ok, pure_eq_ok] at hrun
  obtain ⟨group, _, hopen, rfl, rfl⟩ := hrun
  obtain ⟨hbound, rfl, rfl⟩ := openSubgroup_eq_ok hopen
  obtain rfl := h.connection
  exact {
    groupId := h.groupId
    objectId := h.objectId
    currentGroup := rfl
    streamCount := h.streamCount
    groupStarted := rfl
    connection := by rw [h.groupId]; rfl
    bounded := hbound }

theorem Within.openGroup (h : Within closed group s c) (hrun : s.openGroup t c = .ok s' c') :
    Within closed group s' c' := by
  simp only [Sender.openGroup, h.currentGroup, pure_eq_ok] at hrun
  obtain ⟨rfl, rfl⟩ := hrun
  exact h

theorem Within.writeFrame (h : Within closed group s c)
    (hrun : s.writeFrame t frame c = .ok s' c') : Within closed (group ++ [frame]) s' c' := by
  simp only [Sender.writeFrame, h.currentGroup, bind_eq_ok, pure_eq_ok] at hrun
  obtain ⟨_, _, hwrite, rfl, rfl⟩ := hrun
  obtain ⟨-, rfl⟩ := perform_eq_ok (onError_eq_ok.mp hwrite)
  obtain rfl := h.connection
  exact {
    groupId := h.groupId
    objectId := h.objectId ▸ toUInt64_length_concat group frame
    currentGroup := rfl
    streamCount := h.streamCount
    groupStarted := h.groupStarted
    connection := by rw [openEvents_concat, List.append_assoc]
    bounded := h.bounded }

/-- Finishing the stream of an open group closes it. -/
theorem Within.close {u : Unit} (h : Within closed group s c)
    (hrun : SubgroupWriter.close t ⟨closed.length, false⟩ c = .ok u c') :
    c' = ⟨(closed ++ [group]).length, groupsEvents (closed ++ [group]), []⟩ := by
  obtain rfl := close_eq_ok hrun
  obtain rfl := h.connection
  rw [groupsEvents_concat, groupEvents, List.append_assoc, List.length_append,
    List.length_singleton]

theorem closeGroup_new (hrun : Sender.closeGroup t frame .new c = .ok s' c') :
    s' = .new ∧ c' = c := by
  have hstarted : (frame.isKeyframe && Sender.new.groupStarted) = false := Bool.and_false _
  simp only [Sender.closeGroup, hstarted, Bool.false_eq_true, if_false, pure_eq_ok] at hrun
  exact ⟨hrun.1.symm, hrun.2.symm⟩

theorem Within.closeGroup (h : Within closed group s c) (hkey : frame.isKeyframe = true)
    (hrun : s.closeGroup t frame c = .ok s' c') : Between (closed ++ [group]) s' c' := by
  simp only [Sender.closeGroup, hkey, h.groupStarted, Bool.and_self, if_true, h.currentGroup,
    bind_eq_ok, pure_eq_ok] at hrun
  obtain ⟨_, _, hclose, rfl, rfl⟩ := hrun
  exact {
    groupId := h.groupId ▸ toUInt64_length_concat closed group
    objectId := rfl
    currentGroup := rfl
    streamCount := h.streamCount ▸ toUInt64_length_concat closed group
    connection := h.close hclose }

theorem Within.closeGroup_of_inter (h : Within closed group s c) (hkey : frame.isKeyframe = false)
    (hrun : s.closeGroup t frame c = .ok s' c') : Within closed group s' c' := by
  simp only [Sender.closeGroup, hkey, Bool.false_and, Bool.false_eq_true, if_false,
    pure_eq_ok] at hrun
  obtain ⟨rfl, rfl⟩ := hrun
  exact h

theorem Within.closeLast {count : UInt64} (h : Within closed group s c)
    (hrun : s.closeLast t c = .ok count c') : count.toNat = (closed ++ [group]).length ∧
      c' = ⟨(closed ++ [group]).length, groupsEvents (closed ++ [group]), []⟩ := by
  simp only [Sender.closeLast, h.currentGroup, bind_eq_ok, pure_eq_ok] at hrun
  obtain ⟨_, _, hclose, rfl, rfl⟩ := hrun
  refine ⟨?_, h.close hclose⟩
  have hbound := h.bounded
  rw [h.streamCount, toUInt64_length_concat closed group, UInt64.toNat_ofNat', Nat.mod_eq_of_lt]
  rw [List.length_append, List.length_singleton]
  omega

end Rules

/-! ### The loop -/

/-- What has been sent of the frames that have come. -/
inductive Sent (frames : List IvfFrame) (s : Sender) (c : Connection) : Prop
  | none (empty : frames = []) (sender : s = .new) (connection : c = .new)
  | some {closed : List (List IvfFrame)} {group : List IvfFrame}
      (groups : groups IvfFrame.isKeyframe frames = closed ++ [group])
      (within : Within closed group s c)

theorem Sent.step {c c' : Connection} {done : List IvfFrame} {frame : IvfFrame} {s s' : Sender}
    (h : Sent done s c) (hrun : s.step t frame c = .ok s' c') :
    Sent (done ++ [frame]) s' c' := by
  unfold Sender.step at hrun
  obtain ⟨s₁, c₁, hclose, hrun⟩ := bind_eq_ok.mp hrun
  obtain ⟨s₂, c₂, hopen, hwrite⟩ := bind_eq_ok.mp hrun
  cases h with
  | none hempty hsender hconnection =>
    subst hempty hsender hconnection
    -- the first frame starts a group even if it is no keyframe
    obtain ⟨rfl, rfl⟩ := closeGroup_new hclose
    have hnext := (between_new.openGroup hopen).writeFrame hwrite
    exact .some groups_singleton hnext
  | @some closed group hgroups hwithin =>
    cases hkey : frame.isKeyframe with
    | true =>
      have hnext := ((hwithin.closeGroup hkey hclose).openGroup hopen).writeFrame hwrite
      refine .some ?_ hnext
      rw [groups_concat_start done hkey, hgroups, List.nil_append]
    | false =>
      have hnext := ((hwithin.closeGroup_of_inter hkey hclose).openGroup hopen).writeFrame hwrite
      exact .some (groups_concat hkey hgroups) hnext

theorem sent_of_run {c : Connection} {frames : List IvfFrame} {s : Sender}
    (hrun : frames.foldlM (Sender.step t) .new .new = .ok s c) : Sent frames s c := by
  have hnone : Sent [] .new .new := .none rfl rfl rfl
  have hsent := foldlM_keeps (P := Sent) (fun _ _ _ _ _ _ h hstep => h.step hstep) hnone hrun
  rwa [List.nil_append] at hsent

theorem sendFrames_eq_ok {c : Connection} {frames : List IvfFrame} {count : UInt64}
    (hrun : sendFrames t frames .new = .ok count c) :
    count.toNat = (groups IvfFrame.isKeyframe frames).length ∧
      c = ⟨(groups IvfFrame.isKeyframe frames).length,
        groupsEvents (groups IvfFrame.isKeyframe frames), []⟩ := by
  obtain ⟨s, mid, hloop, hlast⟩ := bind_eq_ok.mp hrun
  cases sent_of_run hloop with
  | none hempty hsender hconnection =>
    subst hempty hsender hconnection
    obtain ⟨rfl, rfl⟩ := pure_eq_ok.mp hlast
    exact ⟨rfl, rfl⟩
  | @some closed group hgroups hwithin =>
    rw [hgroups]
    exact hwithin.closeLast hlast

/-! ### Refusals -/

def HasRefused (_ : String) (c : Connection) : Prop := c.refused ≠ []

theorem perform_failsWith (event : StreamEvent) : FailsWith HasRefused (perform t event) := by
  intro c e c' hrun
  unfold perform at hrun
  split at hrun
  next =>
    cases hrun
    exact List.append_ne_nil_of_right_ne_nil _ (List.cons_ne_nil _ _)
  next => cases hrun

theorem openSubgroup_failsWith (trackAlias groupId subgroupId : UInt64) :
    FailsWith HasRefused (openSubgroup t trackAlias groupId subgroupId) := by
  have hopen : FailsWith HasRefused (openUni t) :=
    .bind .get fun c => (perform_failsWith _).bind fun _ => (FailsWith.modify _).bind fun _ =>
      .pure _
  exact hopen.bind fun stream => (perform_failsWith _).bind fun _ => .pure _

theorem finish_failsWith (group : SubgroupWriter) : FailsWith HasRefused (group.finish t) := by
  unfold SubgroupWriter.finish
  split
  next => exact .pure group
  next => exact (perform_failsWith _).bind fun _ => .pure _

theorem close_failsWith (group : SubgroupWriter) : FailsWith HasRefused (group.close t) :=
  (finish_failsWith group).bind fun _ => .modify _

/-- Dropping a writer hides no refusal. -/
theorem hasRefused_drop (group : SubgroupWriter) (e : String) (c : Connection)
    (h : HasRefused e c) : HasRefused e (group.drop t c) := by
  unfold SubgroupWriter.drop
  split
  next u c' hrun =>
    unfold SubgroupWriter.finish at hrun
    split at hrun
    next =>
      obtain ⟨-, rfl⟩ := pure_eq_ok.mp hrun
      exact h
    next =>
      obtain ⟨_, _, hperform, hreturn⟩ := bind_eq_ok.mp hrun
      obtain ⟨-, rfl⟩ := perform_eq_ok hperform
      obtain ⟨-, rfl⟩ := pure_eq_ok.mp hreturn
      exact h
  next e' c' hrun => exact finish_failsWith group c e' c' hrun

theorem closeGroup_failsWith (frame : IvfFrame) (s : Sender) :
    FailsWith HasRefused (s.closeGroup t frame) := by
  unfold Sender.closeGroup
  split
  next =>
    cases s.currentGroup with
    | some group => exact (close_failsWith group).bind fun _ => .pure _
    | none => exact .pure _
  next => exact .pure s

theorem openGroup_failsWith (s : Sender) : FailsWith HasRefused (s.openGroup t) := by
  unfold Sender.openGroup
  cases s.currentGroup with
  | some group => exact .pure s
  | none => exact (openSubgroup_failsWith _ _ _).bind fun _ => .pure _

theorem writeFrame_failsWith (frame : IvfFrame) (s : Sender) :
    FailsWith HasRefused (s.writeFrame t frame) := by
  unfold Sender.writeFrame
  cases s.currentGroup with
  | some group =>
    have hwrite : FailsWith HasRefused (onError (group.writeObject t frame.data) (group.drop t)) :=
      (perform_failsWith _).onError (hasRefused_drop group)
    exact hwrite.bind fun _ => .pure _
  | none => exact .pure s

theorem step_failsWith (s : Sender) (frame : IvfFrame) : FailsWith HasRefused (s.step t frame) :=
  (closeGroup_failsWith frame s).bind fun s => (openGroup_failsWith s).bind fun s =>
    writeFrame_failsWith frame s

theorem closeLast_failsWith (s : Sender) : FailsWith HasRefused (s.closeLast t) := by
  unfold Sender.closeLast
  cases s.currentGroup with
  | some group => exact (close_failsWith group).bind fun _ => .pure _
  | none => exact .pure _

theorem sendFrames_failsWith (frames : List IvfFrame) :
    FailsWith HasRefused (sendFrames t frames) :=
  (FailsWith.foldlM step_failsWith frames .new).bind fun s => closeLast_failsWith s

/-! ### The mapping -/

/-- The groups of the frames, each sent in full on a stream of its own, one behind the other. -/
structure MapsToGroups (frames : List IvfFrame) (groups : List (List IvfFrame)) (count : UInt64)
    (c : Connection) : Prop where
  events : c.events = groupsEvents groups
  streams : c.streams = groups.length
  count : count.toNat = groups.length
  frames : groups.flatten = frames
  nonempty : [] ∉ groups
  keyframes : ∀ group ∈ groups, ∀ frame ∈ group.tail, frame.isKeyframe = false
  starts : ∀ group ∈ groups.tail, ∃ first rest, group = first :: rest ∧ first.isKeyframe = true

/-- The frames have been mapped to groups, or the connection has refused something. -/
def Completes (frames : List IvfFrame) : EStateM.Result String Connection UInt64 → Prop
  | .ok count c => ∃ groups, MapsToGroups frames groups count c
  | .error _ c => c.refused ≠ []

theorem completes_sendFrames (t : Transport) (frames : List IvfFrame) :
    Completes frames (sendFrames t frames .new) := by
  cases hrun : sendFrames t frames .new with
  | ok count c =>
    obtain ⟨hcount, rfl⟩ := sendFrames_eq_ok hrun
    exact ⟨groups IvfFrame.isKeyframe frames, {
      events := rfl
      streams := rfl
      count := hcount
      frames := flatten_groups
      nonempty := nil_notMem_groups
      keyframes := fun group hgroup frame hframe => not_starts_of_mem_tail hgroup hframe
      starts := fun group hgroup => starts_of_mem_tail_groups hgroup }⟩
  | error e c => exact sendFrames_failsWith frames .new e c hrun

/-- The length in front of an object is that of its payload. -/
theorem payloadLength_of_mem_readFrames {stdin : Bytes} {frame : IvfFrame}
    (h : frame ∈ readFrames stdin) :
    (objectHeader frame.data).payloadLength.toNat = frame.data.length := by
  have hlength := length_lt_of_mem_readFrames h
  apply Nat.mod_eq_of_lt
  omega

/-- `send_from_stdin` maps the frames to groups, whatever they are; those that it reads have their
flag from their first byte, and their length fits into the header of their object. -/
theorem sendFromStdin_completes (t : Transport) :
    (∀ frames, Completes frames (sendFrames t frames .new)) ∧ ∀ stdin,
      Completes (readFrames stdin) (sendFromStdin t stdin .new) ∧
        ∀ frame ∈ readFrames stdin, frame.isKeyframe = isKeyframe frame.data ∧
          (objectHeader frame.data).payloadLength.toNat = frame.data.length := by
  refine ⟨completes_sendFrames t, fun stdin => ⟨completes_sendFrames t (readFrames stdin), ?_⟩⟩
  intro frame hframe
  exact ⟨isKeyframe_of_mem_readFrames hframe, payloadLength_of_mem_readFrames hframe⟩

/-- A connection that opens as many streams as there are IDs for. -/
def Transport.unlimited : Transport where
  refuses c event :=
    if event.op = .openUni ∧ 2 ^ 60 ≤ c.streams then some "too many streams" else none
  bounded c h := by rw [if_pos ⟨rfl, h⟩]; rfl

example : sendFrames .unlimited [⟨[1], false⟩, ⟨[2], true⟩, ⟨[], false⟩] .new =
    .ok 2 ⟨2, groupsEvents [[⟨[1], false⟩], [⟨[2], true⟩, ⟨[], false⟩]], []⟩ := rfl

end Moqt.Pub
