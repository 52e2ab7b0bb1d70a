import Mathlib.Data.List.AList
import Mathlib.Data.List.Basic
import Mathlib.Tactic.Common

/-! Finite maps with one value per key, as Mathlib's association lists, with the two operations of
a hash map that these lack: `retain`, whose closure may also change the values that it keeps, and
`values`. -/

namespace Library

/-- A map from `K` to `V`. -/
abbrev Map (K V : Type) := AList (fun _ : K => V)

namespace Map

variable {K V : Type}

/-- The values, in the order of the entries. -/
def values (m : Map K V) : List V := m.entries.map (·.2)

/-- Keeps the entries for which `f` returns a value, with that value. -/
def retain (f : K → V → Option V) (m : Map K V) : Map K V where
  entries := m.entries.filterMap fun e => (f e.1 e.2).map fun v => ⟨e.1, v⟩
  nodupKeys := by
    rw [List.nodupKeys_iff_pairwise, List.pairwise_filterMap]
    refine (List.nodupKeys_iff_pairwise.mp m.nodupKeys).imp fun {a b} hab c hc d hd => ?_
    obtain ⟨_, _, rfl⟩ := Option.map_eq_some_iff.mp hc
    obtain ⟨_, _, rfl⟩ := Option.map_eq_some_iff.mp hd
    exact hab

variable [DecidableEq K]

theorem lookup_eq_some_iff {m : Map K V} {k : K} {v : V} :
    m.lookup k = some v ↔ ⟨k, v⟩ ∈ m.entries :=
  AList.mem_lookup_iff

theorem mem_values {m : Map K V} {v : V} : v ∈ m.values ↔ ∃ k, m.lookup k = some v := by
  simp only [values, List.mem_map, lookup_eq_some_iff]
  constructor
  · rintro ⟨⟨k, v'⟩, hmem, rfl⟩
    exact ⟨k, hmem⟩
  · rintro ⟨k, hmem⟩
    exact ⟨⟨k, v⟩, hmem, rfl⟩

theorem mem_iff_lookup {m : Map K V} {k : K} : k ∈ m ↔ ∃ v, m.lookup k = some v := by
  rw [← AList.lookup_isSome, Option.isSome_iff_exists]

theorem eq_empty_iff {m : Map K V} : m = ∅ ↔ ∀ k, m.lookup k = none := by
  constructor
  · rintro rfl k
    exact AList.lookup_empty k
  · intro h
    apply AList.ext
    refine List.eq_nil_iff_forall_not_mem.mpr ?_
    rintro ⟨k, v⟩ hmem
    have hsome := lookup_eq_some_iff.mpr hmem
    rw [h k] at hsome
    cases hsome

@[simp] theorem lookup_retain (f : K → V → Option V) (m : Map K V) (k : K) :
    (m.retain f).lookup k = (m.lookup k).bind (f k) := by
  ext v
  rw [lookup_eq_some_iff, Option.bind_eq_some_iff]
  simp only [retain, List.mem_filterMap, Option.map_eq_some_iff, lookup_eq_some_iff]
  constructor
  · rintro ⟨⟨k', v'⟩, hmem, w, hw, heq⟩
    simp only [Sigma.mk.injEq, heq_eq_eq] at heq
    obtain ⟨rfl, rfl⟩ := heq
    exact ⟨v', hmem, hw⟩
  · rintro ⟨v', hmem, hw⟩
    exact ⟨⟨k, v'⟩, hmem, v, hw, rfl⟩

omit [DecidableEq K] in
theorem retain_congr {f g : K → V → Option V} (h : ∀ k v, f k v = g k v) (m : Map K V) :
    m.retain f = m.retain g := by
  rw [show f = g from funext fun k => funext (h k)]

omit [DecidableEq K] in
/-- What is kept twice is kept by both closures, one after the other. -/
theorem retain_retain (f g : K → V → Option V) (m : Map K V) :
    (m.retain f).retain g = m.retain fun k v => (f k v).bind (g k) := by
  apply AList.ext
  show List.filterMap _ (List.filterMap _ _) = _
  rw [List.filterMap_filterMap]
  apply List.filterMap_congr
  rintro ⟨k, v⟩ -
  simp only [Option.bind_map, Option.map_bind]
  rfl

theorem erase_idem (m : Map K V) (k : K) : (m.erase k).erase k = m.erase k := by
  apply AList.ext
  show List.kerase k (List.kerase k m.entries) = List.kerase k m.entries
  exact List.kerase_of_notMem_keys (List.notMem_keys_kerase k m.nodupKeys)

theorem lookup_insert_eq (m : Map K V) (k k' : K) (v : V) :
    (m.insert k v).lookup k' = if k' = k then some v else m.lookup k' := by
  split
  · subst k'
    exact AList.lookup_insert m
  · exact AList.lookup_insert_ne ‹_›

theorem lookup_erase_eq (m : Map K V) (k k' : K) :
    (m.erase k).lookup k' = if k' = k then none else m.lookup k' := by
  split
  · subst k'
    exact AList.lookup_erase k m
  · exact AList.lookup_erase_ne ‹_›

end Map

end Library
