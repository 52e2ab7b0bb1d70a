import Moqt.Library.Prefix
import Moqt.Relay.State

/-! Which publisher `find_publisher` finds: the session that registered the longest prefix of the
namespace, field by field. -/

namespace Moqt.Relay

open Library Wire

namespace RelayState

/-- The session that has registered the namespace with these fields. -/
def registrant (s : RelayState) (fields : List Bytes) : Option SessionId :=
  s.namespaceToPublisher.lookup ⟨fields⟩

/-- Every registered publisher is a live session. -/
def PublishersLive (s : RelayState) : Prop :=
  ∀ e ∈ s.namespaceToPublisher.entries, e.2 ∈ s.sessions

instance (s : RelayState) : Decidable s.PublishersLive :=
  inferInstanceAs (Decidable (∀ e ∈ s.namespaceToPublisher.entries, e.2 ∈ s.sessions))

theorem PublishersLive.mem {s : RelayState} (h : s.PublishersLive) {n : TrackNamespace}
    {owner : SessionId} (hn : s.namespaceToPublisher.lookup n = some owner) :
    owner ∈ s.sessions :=
  h ⟨n, owner⟩ (Map.lookup_eq_some_iff.mp hn)

/-- `find_publisher` runs the loop over ever shorter prefixes to its end, and looks the session of
the registrant up. -/
theorem search_findPublisherFrom (s : RelayState) {left : Nat} {fields : List Bytes}
    (hleft : fields.length ≤ left) : ∃ o, Prefix.Search s.registrant fields o ∧
      s.findPublisherFrom left fields =
        o.bind fun id => (s.sessions.lookup id).map fun session => (id, session) := by
  induction left generalizing fields with
  | zero =>
    obtain rfl := List.eq_nil_of_length_eq_zero (Nat.le_zero.mp hleft)
    unfold findPublisherFrom
    cases h : s.namespaceToPublisher.lookup ⟨[]⟩ with
    | some id => exact ⟨some id, .hit h, rfl⟩
    | none => exact ⟨none, .empty h, rfl⟩
  | succ left ih =>
    unfold findPublisherFrom
    cases h : s.namespaceToPublisher.lookup ⟨fields⟩ with
    | some id => exact ⟨some id, .hit h, rfl⟩
    | none =>
      have hshorter : fields.dropLast.length ≤ left := by
        rw [List.length_dropLast]
        omega
      obtain ⟨o, hsearch, hfind⟩ := ih hshorter
      refine ⟨o, ?_, hfind⟩
      -- the code stops at the empty namespace, where dropping a field does nothing
      cases fields with
      | nil =>
        cases hsearch with
        | hit h' => cases h.symm.trans h'
        | empty h' => exact .empty h'
        | pop _ hne _ => exact absurd rfl hne
      | cons field fields => exact .pop h (List.cons_ne_nil _ _) hsearch

theorem findPublisher_eq_some_iff {s : RelayState} {ns : TrackNamespace} {id : SessionId}
    {session : MoqtSession} : s.findPublisher ns = some (id, session) ↔
      (∃ p, Prefix.Longest s.registrant ns.fields p id) ∧
        s.sessions.lookup id = some session := by
  obtain ⟨o, hsearch, hfind⟩ := s.search_findPublisherFrom (Nat.le_refl ns.fields.length)
  rw [findPublisher, hfind, ← hsearch.eq_some_iff, Option.bind_eq_some_iff]
  constructor
  · rintro ⟨id', ho, hpair⟩
    obtain ⟨_, hsession, heq⟩ := Option.map_eq_some_iff.mp hpair
    obtain ⟨rfl, rfl⟩ := Prod.mk.inj heq
    exact ⟨ho, hsession⟩
  · rintro ⟨ho, hsession⟩
    exact ⟨id, ho, by rw [hsession]; rfl⟩

/-- A namespace below a registered one has a publisher, if every owner in the map is a session. -/
theorem findPublisher_of_registered {s : RelayState} {ns m : TrackNamespace}
    (hprefixed : ns.fields <+: m.fields) (hns : ns ∈ s.namespaceToPublisher)
    (hlive : ∀ n owner, s.namespaceToPublisher.lookup n = some owner → owner ∈ s.sessions) :
    ∃ owner session, s.findPublisher m = some (owner, session) ∧ owner ∈ s.sessions := by
  obtain ⟨owner, howner⟩ := Map.mem_iff_lookup.mp hns
  obtain ⟨p, id, hp⟩ := Prefix.exists_longest (f := s.registrant) hprefixed
    (Option.isSome_iff_exists.mpr ⟨owner, howner⟩)
  have hmem := hlive _ _ hp.value
  obtain ⟨session, hsession⟩ := Map.mem_iff_lookup.mp hmem
  exact ⟨id, session, findPublisher_eq_some_iff.mpr ⟨⟨p, hp⟩, hsession⟩, hmem⟩

/-- Among live publishers, `find_publisher` ends, finds one exactly if some registered namespace is
a prefix by fields, and returns the registrant of the longest one and its session. -/
theorem findPublisher_longest {s : RelayState} (hlive : s.PublishersLive) (ns : TrackNamespace) :
    (∃ o, Prefix.Search s.registrant ns.fields o) ∧
      ((s.findPublisher ns).isSome ↔ ∃ n ∈ s.namespaceToPublisher, n.fields <+: ns.fields) ∧
      ∀ id session, s.findPublisher ns = some (id, session) ↔
        (∃ p, Prefix.Longest s.registrant ns.fields p id) ∧
          s.sessions.lookup id = some session := by
  obtain ⟨o, hsearch, -⟩ := s.search_findPublisherFrom (Nat.le_refl ns.fields.length)
  refine ⟨⟨o, hsearch⟩, ?_, fun _ _ => findPublisher_eq_some_iff⟩
  constructor
  · intro hsome
    obtain ⟨⟨id, session⟩, heq⟩ := Option.isSome_iff_exists.mp hsome
    obtain ⟨⟨p, hp⟩, -⟩ := findPublisher_eq_some_iff.mp heq
    exact ⟨⟨p⟩, Map.mem_iff_lookup.mpr ⟨id, hp.value⟩, hp.isPrefix⟩
  · rintro ⟨n, hn, hprefix⟩
    obtain ⟨owner, session, heq, -⟩ := findPublisher_of_registered hprefix hn fun _ _ => hlive.mem
    rw [heq]
    rfl

/-- Two publishers, of the namespace `[1]` and of one below it. -/
def nested : RelayState :=
  let s := ((new.registerSession ⟨0⟩).1.registerSession ⟨1⟩).1
  (s.registerNamespace ⟨[[1]]⟩ 0).registerNamespace ⟨[[1], [2]]⟩ 1

/-- A field that begins with the bytes of the registered one does not match. -/
theorem findPublisher_nested : (nested.findPublisher ⟨[[1], [2, 3]]⟩).isSome ∧
    ∀ id session, nested.findPublisher ⟨[[1], [2, 3]]⟩ = some (id, session) ↔
      (∃ p, Prefix.Longest nested.registrant [[1], [2, 3]] p id) ∧
        nested.sessions.lookup id = some session :=
  ⟨by decide, (findPublisher_longest (s := nested) (by decide) ⟨[[1], [2, 3]]⟩).2.2⟩

end RelayState

end Moqt.Relay
