import Moqt.Library.Table
import Moqt.Relay.Step

/-! Connections and their sessions.  A connection has a session of its own number, which stays in
the state until the connection is cleaned up. -/

namespace Moqt.Relay

open Library Wire

/-- What a step makes of a connection. -/
inductive ConnectionMove (w : World) (l : Label) (c : ConnectionId) (conn' : Connection) : Prop
  | same {conn : Connection} (hl : l ≠ .removeSession c) (hconn : w.connections[c]? = some conn)
      (hid : conn'.sessionId = conn.sessionId) (hstatus : conn'.status = conn.status)
  | left {conn : Connection} (hl : l = .eventError c) (hconn : w.connections[c]? = some conn)
      (hstatus : conn.status = .looping) (hconn' : conn' = { conn with status := .leaving })
  | removed {conn : Connection} (hl : l = .removeSession c) (hconn : w.connections[c]? = some conn)
      (hstatus : conn.status = .leaving) (hconn' : conn' = { conn with status := .closed })
  | connected (hl : l = .connect) (hc : c = w.connections.length)
      (hconn' : conn' = { sessionId := w.state.nextSessionId })

theorem Step.connectionMove {w w' : World} {l : Label} (h : Step w l w') {c : ConnectionId}
    {conn' : Connection} (hc : w'.connections[c]? = some conn') : ConnectionMove w l c conn' := by
  cases h with
  | connect hfree =>
    rcases Table.getElem?_concat.mp hc with hc | ⟨hlast, rfl⟩
    · exact .same nofun hc rfl rfl
    · exact .connected rfl hlast rfl
  | event hconn hstatus event => cases event <;> exact .same nofun hc rfl rfl
  | @eventError c₀ conn₀ hconn hstatus =>
    obtain ⟨conn, hold, rfl⟩ := Table.getElem?_modify.mp hc
    split
    next heq =>
      subst heq
      obtain rfl := Option.mem_unique hconn hold
      exact .left rfl hconn hstatus rfl
    · exact .same nofun hold rfl rfl
  | @removeSession c₀ conn₀ hconn hstatus hfree =>
    obtain ⟨conn, hold, rfl⟩ := Table.getElem?_modify.mp hc
    split
    next heq =>
      subst heq
      obtain rfl := Option.mem_unique hconn hold
      exact .removed rfl hconn hstatus rfl
    next hne => exact .same (by simpa using Ne.symm hne) hold rfl rfl
  | register ht hpc hfree => exact .same nofun hc rfl rfl
  | accept ht hpc ok => exact .same nofun hc rfl rfl
  | dataStream ht h =>
    rw [h.frame] at hc
    exact .same nofun hc rfl rfl
  | subscribe ht h =>
    cases h with
    | opened hpc htrack hpublisher hconn =>
      obtain ⟨conn, hconn, rfl⟩ := Table.getElem?_modify.mp hc
      split <;> exact .same nofun hconn rfl rfl
    | _ => exact .same nofun hc rfl rfl

theorem Step.connections_length {w w' : World} {l : Label} (h : Step w l w') :
    w'.connections.length = w.connections.length + if l = .connect then 1 else 0 := by
  cases h with
  | connect hfree => simp [World.connect]
  | event hconn hstatus event => cases event <;> rfl
  | eventError hconn hstatus => simp [World.setStatus]
  | removeSession hconn hstatus hfree => simp [World.setStatus, World.setState]
  | register ht hpc hfree => rfl
  | accept ht hpc ok => rfl
  | dataStream ht h =>
    rw [h.frame]
    rfl
  | subscribe ht h =>
    cases h with
    | opened hpc htrack hpublisher hconn => simp [World.allocateRequestId, World.update]
    | _ => rfl

/-- The loop of a connection goes on until an event cannot be read. -/
theorem Step.stillLooping {w w' : World} {l : Label} (h : Step w l w') {c : ConnectionId}
    {conn : Connection} (hconn : w.connections[c]? = some conn) (hstatus : conn.status = .looping)
    (hl : l ≠ .eventError c) :
    ∃ conn', w'.connections[c]? = some conn' ∧ conn'.status = .looping := by
  have hlt := (List.getElem?_eq_some_iff.mp hconn).1
  have hlt' : c < w'.connections.length := by
    rw [h.connections_length]
    exact Nat.lt_add_right _ hlt
  refine ⟨w'.connections[c], List.getElem?_eq_getElem hlt', ?_⟩
  cases h.connectionMove (List.getElem?_eq_getElem hlt') with
  | same _ hold _ hsame =>
    obtain rfl := Option.mem_unique hconn hold
    exact hsame.trans hstatus
  | left hl' => exact absurd hl' hl
  | removed _ hold hleaving _ =>
    obtain rfl := Option.mem_unique hconn hold
    rw [hstatus] at hleaving
    cases hleaving
  | connected _ hc _ => exact absurd hlt (hc ▸ Nat.lt_irrefl _)

/-- What a step makes of the sessions. -/
inductive SessionsMove (w : World) (l : Label) (s : RelayState) : Prop
  | same (hconnect : l ≠ .connect) (hsessions : s.sessions = w.state.sessions)
      (hnext : s.nextSessionId = w.state.nextSessionId)
  | registered (hl : l = .connect)
      (hsessions : s.sessions =
        w.state.sessions.insert w.state.nextSessionId ⟨w.connections.length⟩)
      (hnext : s.nextSessionId = w.state.nextSessionId + 1)
  | removed {c : ConnectionId} {conn : Connection} (hl : l = .removeSession c)
      (hconn : w.connections[c]? = some conn)
      (hsessions : s.sessions = w.state.sessions.erase conn.sessionId)
      (hnext : s.nextSessionId = w.state.nextSessionId)

theorem Step.sessionsMove {w w' : World} {l : Label} (h : Step w l w') :
    SessionsMove w l w'.state := by
  cases h with
  | connect hfree => exact .registered rfl rfl rfl
  | event hconn hstatus event => cases event <;> exact .same nofun rfl rfl
  | removeSession hconn hstatus hfree => exact .removed rfl hconn rfl rfl
  | dataStream ht h =>
    rw [h.frame]
    exact .same nofun rfl rfl
  | subscribe ht h =>
    cases h with
    | @trackLock hpc track htrack hfree =>
      have heq : (w.state.trackLock track).sessions = w.state.sessions ∧
          (w.state.trackLock track).nextSessionId = w.state.nextSessionId := by
        unfold RelayState.trackLock
        split <;> exact ⟨rfl, rfl⟩
      exact .same nofun heq.1 heq.2
    | _ => exact .same nofun rfl rfl
  | _ => exact .same nofun rfl rfl

/-- The session of a connection has the number of the connection, and is there until the connection
is cleaned up. -/
structure Numbered (w : World) : Prop where
  next : w.state.nextSessionId = w.connections.length
  sessionId : ∀ (c : ConnectionId) (conn : Connection), w.connections[c]? = some conn →
    conn.sessionId = c
  session : ∀ (id : SessionId) (session : MoqtSession), w.state.sessions.lookup id = some session →
    session.connection = id
  registered : ∀ (c : ConnectionId) (conn : Connection), w.connections[c]? = some conn →
    conn.status ≠ .closed → c ∈ w.state.sessions

theorem Numbered.new : Numbered World.new where
  next := rfl
  sessionId c conn hconn := by simp [World.new] at hconn
  session id session hsession := by cases hsession
  registered c conn hconn := by simp [World.new] at hconn

theorem Numbered.step {w w' : World} {l : Label} (h : Numbered w) (hstep : Step w l w') :
    Numbered w' where
  next := by
    rw [hstep.connections_length, ← h.next]
    cases hstep.sessionsMove with
    | same hconnect hsessions hnext => rw [hnext, if_neg hconnect]; rfl
    | registered hl hsessions hnext => rw [hnext, if_pos hl]
    | removed hl hconn hsessions hnext => rw [hnext, hl]; rfl
  sessionId c conn' hconn' := by
    cases hstep.connectionMove hconn' with
    | same hl hconn hid hstatus => rw [hid, h.sessionId c _ hconn]
    | left hl hconn hstatus hconn' => rw [hconn', h.sessionId c _ hconn]
    | removed hl hconn hstatus hconn' => rw [hconn', h.sessionId c _ hconn]
    | connected hl hc hconn' => rw [hconn', hc, h.next]
  session id session hsession := by
    cases hstep.sessionsMove with
    | same hconnect hsessions hnext => exact h.session id session (hsessions ▸ hsession)
    | registered hl hsessions hnext =>
      rw [hsessions, Map.lookup_insert_eq] at hsession
      split at hsession
      next heq =>
        obtain rfl := Option.some.inj hsession
        rw [heq, h.next]
      · exact h.session id session hsession
    | removed hl hconn hsessions hnext =>
      rw [hsessions, Map.lookup_erase_eq] at hsession
      split at hsession
      · cases hsession
      · exact h.session id session hsession
  registered c conn' hconn' hstatus' := by
    have stays (hl : l ≠ .removeSession c) (hc : c ∈ w.state.sessions) : c ∈ w'.state.sessions := by
      cases hstep.sessionsMove with
      | same hconnect hsessions hnext => exact hsessions ▸ hc
      | registered _ hsessions hnext => exact hsessions ▸ (AList.mem_insert _).mpr (.inr hc)
      | @removed c₀ conn₀ hl₀ hconn hsessions hnext =>
        rw [hsessions, h.sessionId c₀ conn₀ hconn]
        refine (AList.mem_erase).mpr ⟨?_, hc⟩
        rintro rfl
        exact hl hl₀
    cases hstep.connectionMove hconn' with
    | same hl hconn hid hstatus => exact stays hl (h.registered c _ hconn (hstatus ▸ hstatus'))
    | left hl hconn hstatus hconn' =>
      exact stays (by rw [hl]; nofun) (h.registered c _ hconn (by rw [hstatus]; nofun))
    | removed hl hconn hstatus hconn' =>
      rw [hconn'] at hstatus'
      exact absurd rfl hstatus'
    | connected hl hc hconn' =>
      cases hstep.sessionsMove with
      | same hconnect hsessions hnext => exact absurd hl hconnect
      | registered _ hsessions hnext =>
        rw [hsessions, hc, ← h.next]
        exact (AList.mem_insert _).mpr (.inl rfl)
      | removed hl' hconn hsessions hnext => cases hl.symm.trans hl'

end Moqt.Relay
