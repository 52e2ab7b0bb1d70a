import Mathlib.Data.List.ModifyLast
import Mathlib.Tactic.Common
import Moqt.Web.Varint

/-! Encoded video in the browser client: the chunks of WebCodecs, and the groups that they fall
into. -/

namespace Moqt.Web

/-- The `state` of a `VideoEncoder` or a `VideoDecoder`. -/
inductive CodecState where
  | unconfigured
  | configured
  | closed
deriving DecidableEq, Repr

/-- `EncodedVideoChunkType` -/
inductive ChunkType where
  | key
  | delta
deriving DecidableEq, Repr

structure EncodedVideoChunk where
  type : ChunkType
  data : Bytes
deriving DecidableEq, Repr

/-- The payloads of a group as chunks. -/
def asChunks : List Bytes → List EncodedVideoChunk
  | [] => []
  | first :: rest =>
    { type := .key, data := first } :: rest.map fun data => { type := .delta, data }

theorem asChunks_append {payloads : List Bytes} (payload : Bytes) (h : payloads ≠ []) :
    asChunks (payloads ++ [payload]) =
      asChunks payloads ++ [{ type := .delta, data := payload }] := by
  cases payloads with
  | nil => exact absurd rfl h
  | cons first rest => simp [asChunks]

/-- A key chunk starts a group, and a delta chunk goes on with the last one. -/
def addChunk (groups : List (List EncodedVideoChunk)) (chunk : EncodedVideoChunk) :
    List (List EncodedVideoChunk) :=
  match chunk.type with
  | .key => groups ++ [[chunk]]
  | .delta => groups.modifyLast (· ++ [chunk])

/-- The groups of the chunks that an encoder gives. -/
def groupsOf (chunks : List EncodedVideoChunk) : List (List EncodedVideoChunk) :=
  chunks.foldl addChunk []

theorem groupsOf_key {chunk : EncodedVideoChunk} (chunks : List EncodedVideoChunk)
    (h : chunk.type = .key) : groupsOf (chunks ++ [chunk]) = groupsOf chunks ++ [[chunk]] := by
  rw [groupsOf, List.foldl_append, List.foldl_cons, List.foldl_nil, addChunk, h]
  rfl

theorem groupsOf_delta {chunk : EncodedVideoChunk} {chunks group : List EncodedVideoChunk}
    {groups : List (List EncodedVideoChunk)} (h : chunk.type = .delta)
    (hgroups : groupsOf chunks = groups ++ [group]) :
    groupsOf (chunks ++ [chunk]) = groups ++ [group ++ [chunk]] := by
  rw [groupsOf] at hgroups
  rw [groupsOf, List.foldl_append, List.foldl_cons, List.foldl_nil, addChunk, h, hgroups]
  exact List.modifyLast_concat _ _ _

example : groupsOf [⟨.key, [1]⟩, ⟨.delta, [2]⟩, ⟨.key, [3]⟩] =
    [[⟨.key, [1]⟩, ⟨.delta, [2]⟩], [⟨.key, [3]⟩]] := by decide

/-- A group is a key chunk with the delta chunks after it. -/
theorem groupsOf_asChunks (chunks : List EncodedVideoChunk) :
    ∀ group ∈ groupsOf chunks, ∃ first rest, group = asChunks (first :: rest) := by
  induction chunks using List.reverseRecOn with
  | nil => simp [groupsOf]
  | append_singleton chunks chunk ih =>
    obtain ⟨type, data⟩ := chunk
    cases type with
    | key =>
      rw [groupsOf_key chunks rfl]
      intro group hmem
      rcases List.mem_append.mp hmem with hmem | hmem
      · exact ih group hmem
      · exact ⟨data, [], List.mem_singleton.mp hmem⟩
    | delta =>
      rcases List.eq_nil_or_concat (groupsOf chunks) with hnil | ⟨groups, group, hgroups⟩
      · rw [groupsOf] at hnil
        simp [groupsOf, addChunk, hnil, List.modifyLast, List.modifyLast.go]
      · rw [List.concat_eq_append] at hgroups
        rw [groupsOf_delta rfl hgroups]
        rw [hgroups] at ih
        intro group' hmem
        rcases List.mem_append.mp hmem with hmem | hmem
        · exact ih group' (List.mem_append_left _ hmem)
        · obtain rfl := List.mem_singleton.mp hmem
          obtain ⟨first, rest, rfl⟩ := ih group (by simp)
          exact ⟨first, rest ++ [data], (asChunks_append data (by simp)).symm⟩

theorem groupsOf_concat (chunks : List EncodedVideoChunk) (chunk : EncodedVideoChunk) :
    groupsOf (chunks ++ [chunk]) = addChunk (groupsOf chunks) chunk := by
  rw [groupsOf, List.foldl_append]
  rfl

/-- A chunk goes behind the groups that there are, or is dropped. -/
theorem addChunk_cases (groups : List (List EncodedVideoChunk)) (chunk : EncodedVideoChunk) :
    addChunk groups chunk = [] ∨ (addChunk groups chunk).flatten = groups.flatten ++ [chunk] := by
  unfold addChunk
  split
  · exact .inr (by simp)
  · rcases List.eq_nil_or_concat groups with rfl | ⟨front, group, rfl⟩
    · exact .inl rfl
    · refine .inr ?_
      rw [List.concat_eq_append, List.modifyLast_concat]
      simp

/-- No chunk is in a group that has not been given. -/
theorem flatten_groupsOf (chunks : List EncodedVideoChunk) :
    (groupsOf chunks).flatten.Sublist chunks := by
  induction chunks using List.reverseRecOn with
  | nil => exact List.Sublist.slnil
  | append_singleton chunks chunk ih =>
    rw [groupsOf_concat]
    rcases addChunk_cases (groupsOf chunks) chunk with hnil | hflatten
    · rw [hnil]
      exact List.nil_sublist _
    · rw [hflatten]
      exact ih.append_right [chunk]

theorem length_addChunk_le (groups : List (List EncodedVideoChunk)) (chunk : EncodedVideoChunk) :
    (addChunk groups chunk).length ≤ groups.length + 1 := by
  unfold addChunk
  split
  · simp
  · rcases List.eq_nil_or_concat groups with rfl | ⟨front, group, rfl⟩
    · exact Nat.zero_le 1
    · rw [List.concat_eq_append, List.modifyLast_concat]
      simp

theorem length_groupsOf_le (chunks : List EncodedVideoChunk) :
    (groupsOf chunks).length ≤ chunks.length := by
  induction chunks using List.reverseRecOn with
  | nil => exact Nat.le_refl 0
  | append_singleton chunks chunk ih =>
    rw [groupsOf_concat, List.length_append, List.length_singleton]
    have hle := length_addChunk_le (groupsOf chunks) chunk
    omega

theorem asChunks_isPrefix {front payloads : List Bytes} (h : front <+: payloads) :
    asChunks front <+: asChunks payloads := by
  cases front with
  | nil => exact List.nil_prefix
  | cons first front =>
    obtain ⟨rest, rfl⟩ := h
    rw [List.cons_append, asChunks, asChunks, List.map_append]
    exact List.prefix_append _ _

theorem data_asChunks (payloads : List Bytes) :
    (asChunks payloads).map EncodedVideoChunk.data = payloads := by
  cases payloads with
  | nil => rfl
  | cons first rest =>
    rw [asChunks, List.map_cons, List.map_map]
    exact congrArg (first :: ·) (List.map_id rest)

end Moqt.Web
