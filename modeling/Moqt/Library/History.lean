import Moqt.Library.Machine

/-! Machines with a history.  A history is what is noted along a run, step by step, so that what has
happened before can be said of the state that a run has reached.  It has no part in the steps: a
machine takes the same ones with it and without. -/

namespace Library.Machine

variable {S L H : Type} {M : Machine S L} {start : H} {note : S → H → L → H}

/-- The machine with a history, which begins with `start`; each step is noted in it. -/
def withHistory (M : Machine S L) (start : H) (note : S → H → L → H) : Machine (S × H) L where
  init := (M.init, start)
  step x l := (M.step x.1 l).map fun s => (s, note x.1 x.2 l)

theorem withHistory_step {x x' : S × H} {l : L} :
    (M.withHistory start note).step x l = some x' ↔
      M.step x.1 l = some x'.1 ∧ x'.2 = note x.1 x.2 l := by
  obtain ⟨s', h'⟩ := x'
  simp only [withHistory, Option.map_eq_some_iff, Prod.mk.injEq]
  constructor
  · rintro ⟨s, hs, rfl, rfl⟩
    exact ⟨hs, rfl⟩
  · rintro ⟨hs, rfl⟩
    exact ⟨s', hs, rfl, rfl⟩

theorem withHistory_next (x : S × H) (l : L) :
    ((M.withHistory start note).next x l).1 = M.next x.1 l := by
  cases h : M.step x.1 l with
  | none =>
    have hnone : (M.withHistory start note).step x l = none := by simp [withHistory, h]
    rw [next_of_none h, next_of_none hnone]
  | some s =>
    have hsome : (M.withHistory start note).step x l = some (s, note x.1 x.2 l) :=
      withHistory_step.mpr ⟨h, rfl⟩
    rw [next_of_step h, next_of_step hsome]

/-- The run with a history is the run. -/
theorem withHistory_run (x : S × H) (ls : List L) :
    ((M.withHistory start note).run x ls).1 = M.run x.1 ls := by
  induction ls generalizing x with
  | nil => rfl
  | cons l ls ih => rw [run_cons, run_cons, ih, withHistory_next]

theorem Reachable.of_withHistory {x : S × H} (h : (M.withHistory start note).Reachable x) :
    M.Reachable x.1 := by
  obtain ⟨ls, rfl⟩ := h
  exact ⟨ls, (withHistory_run (M.init, start) ls).symm⟩

end Library.Machine
