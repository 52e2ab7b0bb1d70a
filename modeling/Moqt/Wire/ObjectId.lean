import Mathlib.Data.List.Pairwise
import Mathlib.Algebra.BigOperators.Group.List.Basic
import Moqt.Library.Codec
import Moqt.Wire.Object

/-! The ids of the objects of a data stream, which are on the wire as the differences between
them. -/

namespace Moqt.Wire

open Library

/-- `a + b` in a build with overflow checks, as `cargo build` makes it, or without, as
`cargo build --release` does. -/
def checkedBy (overflowChecks : Bool) (a b : UInt64) : Outcome UInt64 :=
  if overflowChecks && decide (2 ^ 64 ≤ a.toNat + b.toNat) then
    .panic "attempt to add with overflow"
  else .ok (a + b)

def resolveObjectId (overflowChecks : Bool) (prevObjectId : Option UInt64) (delta : UInt64) :
    Outcome UInt64 :=
  match prevObjectId with
  | none => .ok delta
  | some prev => do
    let sum ← checkedBy overflowChecks prev delta
    checkedBy overflowChecks sum 1

/-- The ids of objects behind `prevObjectId`: each is resolved from the one before it. -/
def objectIdsFrom (overflowChecks : Bool) (prevObjectId : Option UInt64) :
    List UInt64 → Outcome (List UInt64)
  | [] => .ok []
  | delta :: deltas => do
    let id ← resolveObjectId overflowChecks prevObjectId delta
    let ids ← objectIdsFrom overflowChecks (some id) deltas
    return id :: ids

def objectIds (overflowChecks : Bool) (deltas : List UInt64) : Outcome (List UInt64) :=
  objectIdsFrom overflowChecks none deltas

/-! ### Ids without a bound -/

/-- The ids from `next` on, of which every delta skips as many. -/
def idsFrom (next : Nat) : List Nat → List Nat
  | [] => []
  | delta :: deltas => (next + delta) :: idsFrom (next + delta + 1) deltas

/-- The ids from `next` on that are skipped in front of each of these. -/
def deltasFrom (next : Nat) : List Nat → List Nat
  | [] => []
  | id :: ids => (id - next) :: deltasFrom (id + 1) ids

theorem deltasFrom_idsFrom (next : Nat) (deltas : List Nat) :
    deltasFrom next (idsFrom next deltas) = deltas := by
  induction deltas generalizing next with
  | nil => rfl
  | cons delta deltas ih => rw [idsFrom, deltasFrom, ih, Nat.add_sub_cancel_left]

theorem le_of_mem_idsFrom {next id : Nat} {deltas : List Nat} (h : id ∈ idsFrom next deltas) :
    next ≤ id := by
  induction deltas generalizing next with
  | nil => cases h
  | cons delta deltas ih =>
    rcases List.mem_cons.mp h with rfl | hrest
    · exact Nat.le_add_right next delta
    · have hle := ih hrest
      omega

theorem idsFrom_increasing (next : Nat) (deltas : List Nat) :
    (idsFrom next deltas).Pairwise (· < ·) := by
  induction deltas generalizing next with
  | nil => exact .nil
  | cons delta deltas ih =>
    exact .cons (fun id hid => le_of_mem_idsFrom hid) (ih (next + delta + 1))

/-! ### Ids of 64 bits -/

/-- The first id that can follow. -/
def nextObjectId : Option UInt64 → Nat
  | none => 0
  | some prev => prev.toNat + 1

theorem nextObjectId_le (prevObjectId : Option UInt64) : nextObjectId prevObjectId ≤ 2 ^ 64 := by
  cases prevObjectId with
  | none => exact Nat.zero_le _
  | some prev => exact prev.toNat_lt

theorem checkedBy_fits {a b : UInt64} (overflowChecks : Bool) (h : a.toNat + b.toNat < 2 ^ 64) :
    ∃ sum, checkedBy overflowChecks a b = .ok sum ∧ sum.toNat = a.toNat + b.toNat := by
  have hfits : decide (2 ^ 64 ≤ a.toNat + b.toNat) = false := decide_eq_false (Nat.not_le.mpr h)
  refine ⟨a + b, ?_, ?_⟩
  · rw [checkedBy, hfits, Bool.and_false]
    rfl
  · rw [UInt64.toNat_add, Nat.mod_eq_of_lt h]

/-- An id that fits is resolved. -/
theorem resolveObjectId_fits {prevObjectId : Option UInt64} {delta : UInt64}
    (overflowChecks : Bool) (h : nextObjectId prevObjectId + delta.toNat < 2 ^ 64) :
    ∃ id, resolveObjectId overflowChecks prevObjectId delta = .ok id ∧
      id.toNat = nextObjectId prevObjectId + delta.toNat := by
  cases prevObjectId with
  | none => exact ⟨delta, rfl, (Nat.zero_add _).symm⟩
  | some prev =>
    rw [nextObjectId] at h ⊢
    obtain ⟨sum, hsum, hsumNat⟩ :=
      checkedBy_fits (a := prev) (b := delta) overflowChecks (by omega)
    have hone : (1 : UInt64).toNat = 1 := rfl
    obtain ⟨id, hid, hidNat⟩ := checkedBy_fits (a := sum) (b := 1) overflowChecks (by omega)
    refine ⟨id, ok_bind.mpr ⟨sum, hsum, hid⟩, by omega⟩

/-- The ids are those without a bound as long as the last one fits. -/
theorem objectIdsFrom_exact_iff (overflowChecks : Bool) (prevObjectId : Option UInt64)
    (deltas : List UInt64) :
    (∃ ids, objectIdsFrom overflowChecks prevObjectId deltas = .ok ids ∧
      ids.map UInt64.toNat = idsFrom (nextObjectId prevObjectId) (deltas.map UInt64.toNat)) ↔
      nextObjectId prevObjectId + (deltas.map UInt64.toNat).sum + deltas.length ≤ 2 ^ 64 := by
  induction deltas generalizing prevObjectId with
  | nil => exact iff_of_true ⟨[], rfl, rfl⟩ (nextObjectId_le prevObjectId)
  | cons delta deltas ih =>
    rw [List.map_cons, List.sum_cons, List.length_cons, idsFrom]
    rcases Nat.lt_or_ge (nextObjectId prevObjectId + delta.toNat) (2 ^ 64) with hfits | hpast
    · obtain ⟨id, hid, hidNat⟩ := resolveObjectId_fits overflowChecks hfits
      have hnext : nextObjectId (some id) = nextObjectId prevObjectId + delta.toNat + 1 := by
        rw [nextObjectId, hidNat]
      have hiff := ih (some id)
      rw [hnext] at hiff
      rw [show nextObjectId prevObjectId + (delta.toNat + (deltas.map UInt64.toNat).sum) +
        (deltas.length + 1) = nextObjectId prevObjectId + delta.toNat + 1 +
          (deltas.map UInt64.toNat).sum + deltas.length by omega, ← hiff]
      simp only [objectIdsFrom, hid, ok_bind, Outcome.ok.injEq, ok_pure]
      constructor
      · rintro ⟨_, ⟨_, rfl, ids, hids, rfl⟩, hexact⟩
        exact ⟨ids, hids, (List.cons.inj hexact).2⟩
      · rintro ⟨ids, hids, hexact⟩
        exact ⟨id :: ids, ⟨id, rfl, ids, hids, rfl⟩, by rw [List.map_cons, hidNat, hexact]⟩
    · refine iff_of_false ?_ (by omega)
      rintro ⟨ids, -, hexact⟩
      cases ids with
      | nil => cases hexact
      | cons id ids =>
        have hid : id.toNat = nextObjectId prevObjectId + delta.toNat := (List.cons.inj hexact).1
        have hlt := id.toNat_lt
        omega

theorem checkedBy_eq {overflowChecks : Bool} {a b sum : UInt64}
    (h : checkedBy overflowChecks a b = .ok sum) : a + b = sum := by
  unfold checkedBy at h
  split at h
  · cases h
  · exact Outcome.ok.inj h

theorem resolveObjectId_injective {overflowChecks : Bool} {prevObjectId : Option UInt64}
    {delta delta' id : UInt64} (h : resolveObjectId overflowChecks prevObjectId delta = .ok id)
    (h' : resolveObjectId overflowChecks prevObjectId delta' = .ok id) : delta = delta' := by
  cases prevObjectId with
  | none => exact (Outcome.ok.inj h).trans (Outcome.ok.inj h').symm
  | some prev =>
    obtain ⟨sum, hsum, hid⟩ := ok_bind.mp h
    obtain ⟨sum', hsum', hid'⟩ := ok_bind.mp h'
    have heq : prev + delta + 1 = prev + delta' + 1 := by
      rw [checkedBy_eq hsum, checkedBy_eq hsum', checkedBy_eq hid, checkedBy_eq hid']
    simpa using heq

/-- The ids tell the deltas, also where they wrapped around. -/
theorem objectIdsFrom_injective {overflowChecks : Bool} {prevObjectId : Option UInt64}
    {deltas deltas' ids : List UInt64}
    (h : objectIdsFrom overflowChecks prevObjectId deltas = .ok ids)
    (h' : objectIdsFrom overflowChecks prevObjectId deltas' = .ok ids) : deltas = deltas' := by
  induction deltas generalizing prevObjectId deltas' ids with
  | nil =>
    obtain rfl := Outcome.ok.inj h
    cases deltas' with
    | nil => rfl
    | cons delta' deltas' => simp [objectIdsFrom] at h'
  | cons delta deltas ih =>
    simp only [objectIdsFrom, ok_bind, ok_pure] at h
    obtain ⟨id, hid, rest, hrest, rfl⟩ := h
    cases deltas' with
    | nil => simp [objectIdsFrom] at h'
    | cons delta' deltas' =>
      simp only [objectIdsFrom, ok_bind, ok_pure, List.cons.injEq] at h'
      obtain ⟨_, hid', _, hrest', rfl, rfl⟩ := h'
      rw [resolveObjectId_injective hid hid', ih hrest hrest']

/-- An id behind another is larger only if it fits. -/
theorem resolveObjectId_fits_of_lt {overflowChecks : Bool} {prev delta id : UInt64}
    (h : resolveObjectId overflowChecks (some prev) delta = .ok id) (hlt : prev < id) :
    id.toNat = nextObjectId (some prev) + delta.toNat := by
  obtain ⟨sum, hsum, hid⟩ := ok_bind.mp h
  have hidNat : id.toNat = (prev.toNat + delta.toNat + 1) % 2 ^ 64 := by
    rw [← checkedBy_eq hid, ← checkedBy_eq hsum, UInt64.toNat_add, UInt64.toNat_add,
      Nat.mod_add_mod]
    rfl
  have hlt' : prev.toNat < id.toNat := UInt64.lt_iff_toNat_lt.mp hlt
  have hdelta := delta.toNat_lt
  have hprev := prev.toNat_lt
  rw [nextObjectId]
  omega

/-- Ids that increase are those without a bound: none of them wrapped around. -/
theorem exact_of_increasing {overflowChecks : Bool} {prevObjectId : Option UInt64}
    {deltas ids : List UInt64} (h : objectIdsFrom overflowChecks prevObjectId deltas = .ok ids)
    (hfirst : ∀ prev ∈ prevObjectId, ∀ id ∈ ids, prev < id) (hids : ids.Pairwise (· < ·)) :
    ids.map UInt64.toNat = idsFrom (nextObjectId prevObjectId) (deltas.map UInt64.toNat) := by
  induction deltas generalizing prevObjectId ids with
  | nil =>
    obtain rfl := Outcome.ok.inj h
    rfl
  | cons delta deltas ih =>
    simp only [objectIdsFrom, ok_bind, ok_pure] at h
    obtain ⟨id, hid, rest, hrest, rfl⟩ := h
    obtain ⟨hbehind, hids⟩ := List.pairwise_cons.mp hids
    have hidNat : id.toNat = nextObjectId prevObjectId + delta.toNat := by
      cases prevObjectId with
      | none =>
        obtain rfl := Outcome.ok.inj hid
        exact (Nat.zero_add _).symm
      | some prev => exact resolveObjectId_fits_of_lt hid (hfirst prev rfl id List.mem_cons_self)
    have htail := ih hrest (by rintro _ ⟨⟩; exact hbehind) hids
    rw [nextObjectId, hidNat] at htail
    rw [List.map_cons, List.map_cons, idsFrom, hidNat, htail]

/-- What is expected of the ids: they are those without a bound, in increasing order, and they tell
the deltas, which are the first id and each difference less one. -/
structure Increasing (overflowChecks : Bool) (deltas ids : List UInt64) : Prop where
  resolved : objectIds overflowChecks deltas = .ok ids
  noOverflow : ids.map UInt64.toNat = idsFrom 0 (deltas.map UInt64.toNat)
  increasing : ids.Pairwise (· < ·)
  recovered : deltasFrom 0 (ids.map UInt64.toNat) = deltas.map UInt64.toNat
  unique : ∀ deltas', objectIds overflowChecks deltas' = .ok ids → deltas' = deltas

/-- Ids that are those without a bound are as expected. -/
theorem Increasing.of_exact {overflowChecks : Bool} {deltas ids : List UInt64}
    (hresolved : objectIds overflowChecks deltas = .ok ids)
    (hexact : ids.map UInt64.toNat = idsFrom 0 (deltas.map UInt64.toNat)) :
    Increasing overflowChecks deltas ids where
  resolved := hresolved
  noOverflow := hexact
  increasing := by
    have hincreasing := idsFrom_increasing 0 (deltas.map UInt64.toNat)
    rw [← hexact, List.pairwise_map] at hincreasing
    exact hincreasing
  recovered := by rw [hexact, deltasFrom_idsFrom]
  unique := fun _ h => objectIdsFrom_injective h hresolved

/-- The ids are as expected exactly if the deltas and the number of objects are together no more
than `2 ^ 64`. -/
theorem increasing_iff {overflowChecks : Bool} {deltas : List UInt64} :
    (∃ ids, Increasing overflowChecks deltas ids) ↔
      (deltas.map UInt64.toNat).sum + deltas.length ≤ 2 ^ 64 := by
  have hexact := objectIdsFrom_exact_iff overflowChecks none deltas
  rw [nextObjectId, Nat.zero_add] at hexact
  rw [← hexact]
  constructor
  · rintro ⟨ids, hids⟩
    exact ⟨ids, hids.resolved, exact_of_increasing hids.resolved (by simp) hids.increasing⟩
  · rintro ⟨ids, hresolved, hids⟩
    exact ⟨ids, .of_exact hresolved hids⟩

/-- An object behind the one with the largest id. -/
theorem not_increasing_pastLargest : ¬∀ (overflowChecks : Bool) (deltas : List UInt64),
    deltas ≠ [] → ∃ ids, Increasing overflowChecks deltas ids := by
  intro h
  obtain ⟨ids, hids⟩ := h false [0xffffffffffffffff, 0] (List.cons_ne_nil _ _)
  have hwrapped : objectIds false [0xffffffffffffffff, 0] = .ok [0xffffffffffffffff, 0] := by decide
  obtain rfl := Outcome.ok.inj (hids.resolved.symm.trans hwrapped)
  exact absurd hids.increasing (by decide)

example : objectIds true [0xffffffffffffffff, 0] = .panic "attempt to add with overflow" := by
  decide

end Moqt.Wire
