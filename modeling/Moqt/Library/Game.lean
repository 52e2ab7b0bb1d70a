import Moqt.Library.Machine
import Mathlib.Algebra.Order.BigOperators.Group.Finset

/-! Machines as games.  The scheduler chooses a task, and what the step of the task is told is not
its choice.  `Forces` says that it can bring about a property all the same; the rules for it take a
measure of the work that is left, of one task or of a table of tasks. -/

namespace Library

namespace Machine

variable {S L T : Type} {M : Machine S L} {owner : L → Option T} {D E I : S → Prop}

/-- The scheduler can bring the machine from `s` to a state that is `D`, whatever the tasks that it
chooses are told. -/
inductive Forces (M : Machine S L) (owner : L → Option T) (D : S → Prop) : S → Prop
  | done {s : S} (h : D s) : Forces M owner D s
  | move {s : S} (t : T) (henabled : ∃ l s', owner l = some t ∧ M.step s l = some s')
      (h : ∀ l s', owner l = some t → M.step s l = some s' → Forces M owner D s') :
    Forces M owner D s

namespace Forces

/-- One thing is brought about after the other. -/
theorem trans {s : S} (h : M.Forces owner D s) (hnext : ∀ s, D s → M.Forces owner E s) :
    M.Forces owner E s := by
  induction h with
  | done h => exact hnext _ h
  | move t henabled _ ih => exact .move t henabled ih

/-- The rule for a measure: where it is not done, there is a task that can move, and each move of it
leaves less work. -/
theorem of_work (work : S → Nat)
    (hmove : ∀ s, I s → ¬D s → ∃ t, (∃ l s', owner l = some t ∧ M.step s l = some s') ∧
      ∀ l s', owner l = some t → M.step s l = some s' → I s' ∧ work s' < work s)
    {s : S} (hs : I s) : M.Forces owner D s := by
  induction hwork : work s using Nat.strong_induction_on generalizing s with
  | _ n ih =>
    subst hwork
    by_cases hdone : D s
    · exact .done hdone
    · obtain ⟨t, henabled, hmoves⟩ := hmove s hs hdone
      refine .move t henabled fun l s' howner hstep => ?_
      obtain ⟨hs', hlt⟩ := hmoves l s' howner hstep
      exact ih (work s') hlt hs' rfl

theorem sum_lt_of_changed {f g : Nat → Nat} {n i : Nat} (hi : i < n) (hlt : g i < f i)
    (hsame : ∀ j, j ≠ i → g j = f j) :
    ∑ j ∈ Finset.range n, g j < ∑ j ∈ Finset.range n, f j := by
  refine Finset.sum_lt_sum (fun j _ => ?_) ⟨i, Finset.mem_range.mpr hi, hlt⟩
  by_cases hji : j = i
  · subst hji
    exact hlt.le
  · exact (hsame j hji).le

/-- The rule for a table of tasks: where one of them has work left, there is one that can move, and
each move of it leaves less work to it and as much to the others. -/
theorem of_table (M : Machine S L) (owner : L → Option T) (I : S → Prop) (count : S → Nat)
    (work : S → Nat → Nat)
    (hmove : ∀ s i, I s → i < count s → work s i ≠ 0 → ∃ t j,
      (∃ l s', owner l = some t ∧ M.step s l = some s') ∧ j < count s ∧
      ∀ l s', owner l = some t → M.step s l = some s' →
        I s' ∧ count s' = count s ∧ work s' j < work s j ∧ ∀ i, i ≠ j → work s' i = work s i)
    {s : S} (hs : I s) : M.Forces owner (fun s => I s ∧ ∀ i, i < count s → work s i = 0) s := by
  refine of_work (fun s => ∑ i ∈ Finset.range (count s), work s i) (fun s (hs : I s) hleft => ?_) hs
  obtain ⟨i, hi, hwork⟩ : ∃ i, i < count s ∧ work s i ≠ 0 := by
    by_contra hnone
    push Not at hnone
    exact hleft ⟨hs, hnone⟩
  obtain ⟨t, j, henabled, hj, hmoves⟩ := hmove s i hs hi hwork
  refine ⟨t, henabled, fun l s' howner hstep => ?_⟩
  obtain ⟨hs', hcount, hlt, hsame⟩ := hmoves l s' howner hstep
  refine ⟨hs', ?_⟩
  rw [hcount]
  exact sum_lt_of_changed hj hlt hsame

end Forces

end Machine

end Library
