import Moqt.Library.History
import Moqt.Relay.Answer
import Mathlib.Data.List.Nodup

/-! Request ids.  The relay has an allocator of odd ids for each connection, from which every
upstream SUBSCRIBE on the connection takes one, in the order in which the tasks come to ask. -/

namespace Moqt.Relay

open Library Wire

/-! ### The allocator -/

/-- `RequestIdAllocator`, by the id that comes next. -/
structure RequestIdAllocator where
  nextId : UInt64
deriving DecidableEq, Repr

namespace RequestIdAllocator

def client : RequestIdAllocator := ⟨0⟩

def server : RequestIdAllocator := ⟨1⟩

def allocate (a : RequestIdAllocator) : UInt64 × RequestIdAllocator := (a.nextId, ⟨a.nextId + 2⟩)

/-- The ids that `n` calls of `allocate` return, and the allocator behind them. -/
def allocates (a : RequestIdAllocator) : Nat → List UInt64 × RequestIdAllocator
  | 0 => ([], a)
  | n + 1 => ((a.allocates n).1 ++ [(a.allocates n).2.allocate.1], (a.allocates n).2.allocate.2)

variable (a : RequestIdAllocator)

theorem nextId_allocates (n : Nat) : (a.allocates n).2.nextId = a.nextId + 2 * .ofNat n := by
  induction n with
  | zero => simp [allocates]
  | succ n ih =>
    rw [allocates, allocate, ih, UInt64.ofNat_add, UInt64.mul_add, UInt64.add_assoc]
    rfl

theorem allocates_eq (n : Nat) :
    (a.allocates n).1 = (List.range n).map fun i => a.nextId + 2 * .ofNat i := by
  induction n with
  | zero => rfl
  | succ n ih =>
    rw [allocates, allocate, ih, nextId_allocates, List.range_succ, List.map_append]
    rfl

theorem toNat_two : (2 : UInt64).toNat = 2 := rfl

/-- Every id has the parity of the first one. -/
theorem parity_of_mem_allocates {n : Nat} {id : UInt64} (h : id ∈ (a.allocates n).1) :
    id.toNat % 2 = a.nextId.toNat % 2 := by
  rw [allocates_eq] at h
  obtain ⟨i, -, rfl⟩ := List.mem_map.mp h
  rw [UInt64.toNat_add, UInt64.toNat_mul, toNat_two]
  omega

/-- What a client has allocated is nothing that a server has. -/
theorem disjoint_client_server (m n : Nat) :
    List.Disjoint (client.allocates m).1 (server.allocates n).1 := by
  intro id hclient hserver
  have heven := parity_of_mem_allocates client hclient
  have hodd := parity_of_mem_allocates server hserver
  rw [heven] at hodd
  exact absurd hodd (by decide)

/-- The allocator does not come back to an id before it has counted through all that it has. -/
theorem nodup_allocates {n : Nat} (hn : n ≤ 2 ^ 63) : (a.allocates n).1.Nodup := by
  rw [allocates_eq]
  refine List.Nodup.map_on (fun i hi j hj heq => ?_) List.nodup_range
  rw [List.mem_range] at hi hj
  have hsame : (2 * UInt64.ofNat i).toNat = (2 * UInt64.ofNat j).toNat :=
    congrArg UInt64.toNat ((UInt64.add_right_inj _).mp heq)
  rw [UInt64.toNat_mul, UInt64.toNat_mul, toNat_two, UInt64.toNat_ofNat',
    UInt64.toNat_ofNat'] at hsame
  omega

end RequestIdAllocator

/-! ### Upstream SUBSCRIBEs -/

/-- The connection of the publisher that the task has asked, and the id that it has done so with. -/
def SubscribeTask.upstream (t : SubscribeTask) : Option (ConnectionId × UInt64) := do
  let publisher ← t.publisher
  let request ← t.upstreamRequest
  return (publisher.2.connection, request.requestId)

namespace World

def upstream (w : World) (k : RequestId) : Option (ConnectionId × UInt64) :=
  (w.task k).bind SubscribeTask.upstream

/-- The id that comes next on the connection, also if that is still to be accepted. -/
def nextRequestId (w : World) (c : ConnectionId) : UInt64 :=
  (w.connections[c]?).elim RequestIdAllocator.server.nextId Connection.nextRequestId

variable {w : World} {k : RequestId}

theorem upstream_update {f : SubscribeTask → SubscribeTask}
    (hf : ∀ t, w.task k = some t → (f t).upstream = t.upstream) (j : RequestId) :
    (w.update k f).upstream j = w.upstream j := by
  rw [upstream, upstream, task_update]
  split
  next heq =>
    subst heq
    cases ht : w.task j with
    | none => rfl
    | some t => exact hf t ht
  · rfl

theorem upstream_goto (pc : SubscribePc) (j : RequestId) :
    (w.goto k pc).upstream j = w.upstream j :=
  upstream_update (by intros; rfl) j

theorem upstream_write (response : Response) (ok : Bool) (j : RequestId) :
    (w.write k response ok).upstream j = w.upstream j :=
  upstream_update (by cases ok <;> intros <;> rfl) j

theorem upstream_finish (j : RequestId) : (w.finish k).upstream j = w.upstream j :=
  upstream_update (w := (w.setStateGuard _).dropTrackGuard k) (by intros; rfl) j

end World

/-- The task that the step has a request stream opened for on the connection `c`. -/
def World.asks (w : World) (c : ConnectionId) : Label → Option RequestId
  | .subscribe k (.opened true) => do
    let t ← w.task k
    let (_, session) ← t.publisher
    guard (session.connection = c)
    return k
  | _ => none

/-- The relay, and the tasks that have asked on the connection `c`, in the order of their steps. -/
def asking (c : ConnectionId) : Machine (World × List RequestId) Label :=
  relay.withHistory [] fun w ks l => ks ++ (w.asks c l).toList

/-- The tasks that have asked on the connection `c` in a run, in the order in which they have. -/
def asked (c : ConnectionId) (ls : List Label) : List RequestId :=
  ((asking c).run (asking c).init ls).2

/-- What a step makes of the upstream SUBSCRIBEs: nothing, or one that takes the id that comes next
on its connection. -/
inductive Issues (w : World) (l : Label) (w' : World) : Prop
  | same (hasks : ∀ c, w.asks c l = none) (hupstream : ∀ k, w'.upstream k = w.upstream k)
      (hnext : ∀ c, w'.nextRequestId c = w.nextRequestId c)
  | issued {k : RequestId} {c : ConnectionId}
      (hasks : ∀ d, w.asks d l = if d = c then some k else none) (hbefore : w.upstream k = none)
      (hupstream : ∀ j, w'.upstream j =
        if j = k then some (c, w.nextRequestId c) else w.upstream j)
      (hnext : ∀ d, w'.nextRequestId d = w.nextRequestId d + if d = c then 2 else 0)

/-- A handler whose request stream is opened goes on. -/
theorem SilentExit.not_opened {t : SubscribeTask} {input : Input} (h : SilentExit t input) :
    input ≠ .opened true := by
  rintro rfl
  unfold SilentExit at h
  split at h <;> simp_all

theorem World.asks_of_ne {w : World} {k : RequestId} {input : Input} (h : input ≠ .opened true)
    (c : ConnectionId) : w.asks c (.subscribe k input) = none := by
  cases input with
  | opened ok =>
    cases ok with
    | true => exact absurd rfl h
    | false => rfl
  | _ => rfl

theorem SubscribeStep.issues {w w' : World} {k : RequestId} {t : SubscribeTask} {input : Input}
    (h : SubscribeStep w k t input w') (ht : w.task k = some t) (hunasked : Unasked w) :
    Issues w (.subscribe k input) w' := by
  cases h with
  | @opened hpc track publisher conn htrack hpublisher hconn =>
    have hnone := hunasked k t ht (by rw [hpc]; rfl)
    refine @Issues.issued _ _ _ k publisher.2.connection (fun d => ?_) ?_ (fun j => ?_) fun d => ?_
    · by_cases hd : d = publisher.2.connection
      · simp [World.asks, ht, hpublisher, hd]
      · simp [World.asks, ht, hpublisher, hd, Ne.symm hd]
    · simp [World.upstream, ht, SubscribeTask.upstream, hnone]
    · rw [World.upstream, World.task_update, World.task_allocateRequestId]
      split
      next heq =>
        subst heq
        simp [ht, SubscribeTask.upstream, hpublisher, World.upstreamSubscribe, World.nextRequestId,
          hconn]
      · rfl
    · simp only [World.nextRequestId, World.update, World.allocateRequestId, List.getElem?_modify]
      by_cases hd : d = publisher.2.connection
      · subst hd
        simp [hconn]
      · simp [hd, Ne.symm hd]
  | found hpc hfree hfound =>
    refine .same (fun _ => rfl) (World.upstream_update fun t' ht' => ?_) fun c => rfl
    obtain rfl := Option.mem_unique ht ht'
    have hnone := hunasked k t ht (by rw [hpc]; rfl)
    simp [SubscribeTask.upstream, hnone]
  | reject hpc error ok | forwardLast ok hpc hanswer hencode =>
    refine .same (fun _ => rfl) (fun j => ?_) fun c => rfl
    rw [World.upstream_finish, World.upstream_write]
  | forwarded hpc hanswer hencode =>
    refine .same (fun _ => rfl) (fun j => ?_) fun c => rfl
    rw [World.upstream_goto, World.upstream_write]
  | notify hpc hdone htodo ok =>
    refine .same (fun _ => rfl) (fun j => ?_) fun c => rfl
    rw [World.upstream_write]
    exact World.upstream_update (by intros; rfl) j
  | silent hpc h =>
    exact .same (World.asks_of_ne h.not_opened) World.upstream_finish fun c => rfl
  | notDone | notified => exact .same (fun _ => rfl) World.upstream_finish fun c => rfl
  | unsupported | vacant => exact .same (fun _ => rfl) (World.upstream_goto _) fun c => rfl
  | _ => exact .same (fun _ => rfl) (World.upstream_update (by intros; rfl)) fun c => rfl

theorem World.upstream_spawn (w : World) (id : SessionId) (event : SessionEvent) (k : RequestId) :
    (w.spawn id event).upstream k = w.upstream k := by
  cases event with
  | subscribe message =>
    cases ht : w.task k with
    | some t =>
      have hold : (w.spawn id (.subscribe message)).task k = some t :=
        World.task_spawn.mpr (.inl ht)
      rw [upstream, upstream, hold, ht]
    | none =>
      cases ht' : (w.spawn id (.subscribe message)).task k with
      | none => rw [upstream, upstream, ht, ht']
      | some t =>
        rcases World.task_spawn.mp ht' with hold | ⟨-, rfl⟩
        · rw [ht] at hold
          cases hold
        · rw [upstream, upstream, ht, ht']
          rfl
  | _ => rfl

theorem World.nextRequestId_setStatus (w : World) (c : ConnectionId) (status : ConnectionStatus)
    (d : ConnectionId) : (w.setStatus c status).nextRequestId d = w.nextRequestId d := by
  rw [nextRequestId, nextRequestId, setStatus, List.getElem?_modify]
  cases w.connections[d]? with
  | none => rfl
  | some conn =>
    split <;> rfl

theorem Step.issues {w w' : World} {l : Label} (h : Step w l w') (hunasked : Unasked w) :
    Issues w l w' := by
  cases h with
  | subscribe ht hs => exact hs.issues ht hunasked
  | dataStream ht hs =>
    rw [hs.frame]
    exact .same (fun _ => rfl) (fun _ => rfl) fun _ => rfl
  | connect hfree =>
    refine .same (fun _ => rfl) (fun _ => rfl) fun c => ?_
    rw [World.nextRequestId, World.nextRequestId, World.connect]
    rcases Nat.lt_trichotomy c w.connections.length with hc | hc | hc
    · rw [List.getElem?_append_left hc]
    · simp [hc, RequestIdAllocator.server]
    · simp [hc.le, List.getElem?_append_right hc.le, Nat.sub_ne_zero_of_lt hc]
  | event hconn hstatus event =>
    exact .same (fun _ => rfl) (World.upstream_spawn _ _ _) fun c => by cases event <;> rfl
  | eventError hconn hstatus =>
    exact .same (fun _ => rfl) (fun _ => rfl) (World.nextRequestId_setStatus _ _ _)
  | removeSession hconn hstatus hfree =>
    exact .same (fun _ => rfl) (fun _ => rfl) (World.nextRequestId_setStatus _ _ _)
  | _ => exact .same (fun _ => rfl) (fun _ => rfl) fun _ => rfl

/-- The tasks `ks` are the ones that have asked on the connection, each with the id that was its
turn. -/
structure Issued (w : World) (c : ConnectionId) (ks : List RequestId) : Prop where
  nodup : ks.Nodup
  mem : ∀ k id, w.upstream k = some (c, id) → k ∈ ks
  ids : ks.map w.upstream =
    (RequestIdAllocator.server.allocates ks.length).1.map fun id => some (c, id)
  next : w.nextRequestId c = (RequestIdAllocator.server.allocates ks.length).2.nextId

theorem Issued.new (c : ConnectionId) : Issued .new c [] where
  nodup := .nil
  mem _ _ h := by cases h
  ids := rfl
  next := rfl

theorem Issued.step {w w' : World} {c : ConnectionId} {ks : List RequestId} {l : Label}
    (h : Issued w c ks) (hstep : Issues w l w') :
    Issued w' c (ks ++ (w.asks c l).toList) := by
  cases hstep with
  | same hasks hupstream hnext =>
    have hsame : w'.upstream = w.upstream := funext hupstream
    rw [hasks, Option.toList_none, List.append_nil]
    exact ⟨h.nodup, hsame ▸ h.mem, hsame ▸ h.ids, (hnext c).trans h.next⟩
  | @issued k d hasks hbefore hupstream hnext =>
    -- a task that asks now is none of those that have asked
    have hk : k ∉ ks := by
      intro hmem
      have hsome : w.upstream k ∈ ks.map w.upstream := List.mem_map_of_mem hmem
      rw [h.ids, hbefore] at hsome
      simp at hsome
    have hold : ks.map w'.upstream = ks.map w.upstream := by
      refine List.map_congr_left fun j hj => ?_
      rw [hupstream, if_neg (ne_of_mem_of_not_mem hj hk)]
    by_cases hd : c = d
    · subst hd
      rw [hasks, if_pos rfl, Option.toList_some]
      refine ⟨?_, ?_, ?_, ?_⟩
      · rw [List.nodup_append]
        refine ⟨h.nodup, List.nodup_singleton k, fun j hj j' hj' => ?_⟩
        obtain rfl := List.mem_singleton.mp hj'
        exact ne_of_mem_of_not_mem hj hk
      · intro j id hj
        rw [hupstream] at hj
        split at hj
        next heq => simp [heq]
        · exact List.mem_append_left _ (h.mem j id hj)
      · rw [List.map_append, hold, h.ids, List.length_append, List.length_singleton,
          RequestIdAllocator.allocates, List.map_append]
        simp [hupstream, h.next, RequestIdAllocator.allocate]
      · rw [hnext, if_pos rfl, h.next, List.length_append, List.length_singleton]
        rfl
    · rw [hasks, if_neg hd, Option.toList_none, List.append_nil]
      refine ⟨h.nodup, ?_, hold.trans h.ids, ?_⟩
      · intro j id hj
        rw [hupstream] at hj
        split at hj
        · exact absurd (Prod.mk.inj (Option.some.inj hj)).1.symm hd
        · exact h.mem j id hj
      · rw [hnext, if_neg hd]
        simpa using h.next

theorem issued_of_run (ls : List Label) (c : ConnectionId) :
    Issued (relay.run .new ls) c (asked c ls) := by
  have hboth : Unasked ((asking c).run (asking c).init ls).1 ∧
      Issued ((asking c).run (asking c).init ls).1 c (asked c ls) := by
    refine ((asking c).reachable_run ls).invariant
      (I := fun x => Unasked x.1 ∧ Issued x.1 c x.2) ?_ ?_
    · exact ⟨fun j _ ht => absurd ht (World.not_task_new j), .new c⟩
    · rintro x l x' ⟨hunasked, hissued⟩ hstep
      obtain ⟨hstep, hnote⟩ := Machine.withHistory_step.mp hstep
      have hstep := Step.of_step hstep
      rw [hnote]
      exact ⟨hunasked.step hstep, hissued.step (hstep.issues hunasked)⟩
  have hrun : ((asking c).run (asking c).init ls).1 = relay.run .new ls :=
    Machine.withHistory_run _ ls
  exact hrun ▸ hboth.2

/-- The task that was spawned last comes to ask first. -/
example : asked 0 ([Label.connect, .connect] ++ Schedule.announce 0 0 ⟨[[1]]⟩ ++
    Schedule.ask 1 0 ⟨[[1]]⟩ [0x61] ++ Schedule.ask 1 1 ⟨[[1]]⟩ [0x62] ++
    Schedule.fetchUpstream 1 7 ++ Schedule.fetchUpstream 0 8) = [1, 0] := by decide +kernel

end Moqt.Relay
