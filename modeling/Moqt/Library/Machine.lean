import Mathlib.Data.List.Forall2
import Mathlib.Data.List.Induction
import Mathlib.Tactic.Common

/-! Machines whose steps are chosen by a schedule of labels.  A label that is not enabled leaves
the state as it is, so every list of labels is a schedule and two runs can follow the same one.
`invariant` is the rule for what holds in every state of a run, `related` the rule for what two
runs keep in common; both allow a condition on the steps that the runs take. -/

namespace Library

/-- A state to start from and the step that a label takes, if it is enabled. -/
structure Machine (S L : Type) where
  init : S
  step : S → L → Option S

namespace Machine

variable {S L : Type} (M : Machine S L)

/-- The state after the label `l`, which does nothing where it is not enabled. -/
def next (s : S) (l : L) : S := (M.step s l).getD s

/-- The state after the labels `ls`. -/
def run (s : S) (ls : List L) : S := ls.foldl M.next s

/-- The states that some schedule reaches. -/
def Reachable (s : S) : Prop := ∃ ls, M.run M.init ls = s

/-- Every step that the schedule takes from `s` meets `P`, a condition on the state before the
step and its label. -/
def Meets (P : S → L → Prop) : S → List L → Prop
  | _, [] => True
  | s, l :: ls => ((M.step s l).isSome → P s l) ∧ Meets P (M.next s l) ls

instance decidableMeets (P : S → L → Prop) [∀ s l, Decidable (P s l)] :
    (s : S) → (ls : List L) → Decidable (M.Meets P s ls)
  | _, [] => isTrue trivial
  | s, l :: ls =>
    have := decidableMeets P (M.next s l) ls
    inferInstanceAs (Decidable (((M.step s l).isSome → P s l) ∧ M.Meets P (M.next s l) ls))

variable {M} {P : S → L → Prop}

theorem next_of_step {s s' : S} {l : L} (h : M.step s l = some s') : M.next s l = s' := by
  simp [next, h]

theorem next_of_none {s : S} {l : L} (h : M.step s l = none) : M.next s l = s := by
  simp [next, h]

@[simp] theorem run_nil (s : S) : M.run s [] = s := rfl

@[simp] theorem run_cons (s : S) (l : L) (ls : List L) :
    M.run s (l :: ls) = M.run (M.next s l) ls := rfl

theorem run_append (s : S) (ls ls' : List L) : M.run s (ls ++ ls') = M.run (M.run s ls) ls' :=
  List.foldl_append

/-- A state that no label of the schedule changes stays as it is. -/
theorem run_fixed {s : S} {ls : List L} (h : ∀ l ∈ ls, M.next s l = s) : M.run s ls = s := by
  induction ls with
  | nil => rfl
  | cons l ls ih =>
    obtain ⟨hfirst, hrest⟩ := List.forall_mem_cons.mp h
    rw [run_cons, hfirst, ih hrest]

theorem meets_append {s : S} {ls ls' : List L} :
    M.Meets P s (ls ++ ls') ↔ M.Meets P s ls ∧ M.Meets P (M.run s ls) ls' := by
  induction ls generalizing s with
  | nil => simp [Meets]
  | cons l ls ih => simp [Meets, ih, and_assoc]

theorem Meets.and {Q : S → L → Prop} {s : S} {ls : List L} (h : M.Meets P s ls)
    (h' : M.Meets Q s ls) : M.Meets (fun s l => P s l ∧ Q s l) s ls := by
  induction ls generalizing s with
  | nil => trivial
  | cons l ls ih => exact ⟨fun hs => ⟨h.1 hs, h'.1 hs⟩, ih h.2 h'.2⟩

theorem meets_true (s : S) (ls : List L) : M.Meets (fun _ _ => True) s ls := by
  induction ls generalizing s with
  | nil => trivial
  | cons l ls ih => exact ⟨fun _ => trivial, ih _⟩

/-- A condition on the labels that those of the schedule meet. -/
theorem meets_of_labels {Q : L → Prop} (s : S) {ls : List L} (h : ∀ l ∈ ls, Q l) :
    M.Meets (fun _ l => Q l) s ls := by
  induction ls generalizing s with
  | nil => trivial
  | cons l ls ih =>
    obtain ⟨hfirst, hrest⟩ := List.forall_mem_cons.mp h
    exact ⟨fun _ => hfirst, ih _ hrest⟩

/-- A run that does not meet `P` has a first step that does not. -/
theorem exists_of_not_meets {s : S} {ls : List L} (h : ¬ M.Meets P s ls) :
    ∃ ls₁ l ls₂, ls = ls₁ ++ l :: ls₂ ∧ (M.step (M.run s ls₁) l).isSome ∧
      ¬ P (M.run s ls₁) l := by
  induction ls generalizing s with
  | nil => exact absurd trivial h
  | cons l ls ih =>
    by_cases hl : (M.step s l).isSome → P s l
    · obtain ⟨ls₁, l', ls₂, rfl, hsome, hnot⟩ := ih fun hls => h ⟨hl, hls⟩
      exact ⟨l :: ls₁, l', ls₂, rfl, hsome, hnot⟩
    · obtain ⟨hsome, hnot⟩ := Classical.not_imp.mp hl
      exact ⟨[], l, ls, rfl, hsome, hnot⟩

/-- What one step that meets `P` keeps, a run of such steps keeps. -/
theorem keeps {I : S → Prop} (hstep : ∀ s l s', I s → P s l → M.step s l = some s' → I s') {s : S}
    (hs : I s) {ls : List L} (hP : M.Meets P s ls) : I (M.run s ls) := by
  induction ls generalizing s with
  | nil => exact hs
  | cons l ls ih =>
    refine ih ?_ hP.2
    cases h : M.step s l with
    | none => rwa [next_of_none h]
    | some s' =>
      rw [next_of_step h]
      exact hstep s l s' hs (hP.1 (by simp [h])) h

/-- The rule for a property of every state of every run whose steps meet `P`. -/
theorem invariant {I : S → Prop} (hinit : I M.init)
    (hstep : ∀ s l s', I s → P s l → M.step s l = some s' → I s') {ls : List L}
    (hP : M.Meets P M.init ls) : I (M.run M.init ls) :=
  keeps hstep hinit hP

/-- The rule for a property `Q` of the steps of a run: it holds of the steps that meet `P` in states
where the invariant holds. -/
theorem Meets.of_invariant {I : S → Prop} {Q : S → L → Prop}
    (hstep : ∀ s l s', I s → P s l → M.step s l = some s' → I s')
    (hQ : ∀ s l s', I s → P s l → M.step s l = some s' → Q s l) {s : S} (hs : I s) {ls : List L}
    (hP : M.Meets P s ls) : M.Meets Q s ls := by
  induction ls generalizing s with
  | nil => trivial
  | cons l ls ih =>
    cases h : M.step s l with
    | none =>
      refine ⟨fun hsome => absurd hsome (by simp [h]), ih ?_ hP.2⟩
      rwa [next_of_none h]
    | some s' =>
      have hl : P s l := hP.1 (by simp [h])
      refine ⟨fun _ => hQ s l s' hs hl h, ih ?_ hP.2⟩
      rw [next_of_step h]
      exact hstep s l s' hs hl h

/-- The rule for a property of every reachable state. -/
theorem Reachable.invariant {I : S → Prop} (hinit : I M.init)
    (hstep : ∀ s l s', I s → M.step s l = some s' → I s') {s : S} (h : M.Reachable s) : I s := by
  obtain ⟨ls, rfl⟩ := h
  exact Machine.invariant (P := fun _ _ => True) hinit
    (fun s l s' hs _ h => hstep s l s' hs h) (meets_true _ ls)

theorem reachable_run (ls : List L) : M.Reachable (M.run M.init ls) := ⟨ls, rfl⟩

theorem Reachable.step {s s' : S} {l : L} (h : M.Reachable s) (hstep : M.step s l = some s') :
    M.Reachable s' := by
  obtain ⟨ls, rfl⟩ := h
  refine ⟨ls ++ [l], ?_⟩
  rw [run_append, run_cons, run_nil, next_of_step hstep]

/-- The rule for an invariant that rests on what is known of every reachable state. -/
theorem induction {I : S → Prop} (hinit : I M.init)
    (hstep : ∀ s l s', M.Reachable s → I s → P s l → M.step s l = some s' → I s') {ls : List L}
    (hP : M.Meets P M.init ls) : I (M.run M.init ls) := by
  refine (M.invariant (I := fun s => M.Reachable s ∧ I s) ⟨⟨[], rfl⟩, hinit⟩ ?_ hP).2
  rintro s l s' ⟨hreachable, hs⟩ hl h
  exact ⟨hreachable.step h, hstep s l s' hreachable hs hl h⟩

theorem Reachable.induction {I : S → Prop} (hinit : I M.init)
    (hstep : ∀ s l s', M.Reachable s → I s → M.step s l = some s' → I s') {s : S}
    (h : M.Reachable s) : I s := by
  obtain ⟨ls, rfl⟩ := h
  exact Machine.induction (P := fun _ _ => True) hinit
    (fun s l s' hreachable hs _ h => hstep s l s' hreachable hs h) (meets_true _ ls)

/-- The rule for what a run says about the labels that it has followed. -/
theorem history {I : List L → Prop} (hnil : I [])
    (hstep : ∀ ls l s', I ls → M.step (M.run M.init ls) l = some s' →
      M.run M.init (ls ++ [l]) = s' → I (ls ++ [l]))
    (hskip : ∀ ls l, I ls → M.run M.init (ls ++ [l]) = M.run M.init ls → I (ls ++ [l]))
    (ls : List L) : I ls := by
  induction ls using List.reverseRecOn with
  | nil => exact hnil
  | append_singleton ls l ih =>
    cases h : M.step (M.run M.init ls) l with
    | some s' =>
      refine hstep ls l s' ih h ?_
      rw [run_append, run_cons, run_nil, next_of_step h]
    | none =>
      refine hskip ls l ih ?_
      rw [run_append, run_cons, run_nil, next_of_none h]

/-! ### Cycles -/

/-- The states after any number of cycles.  A cycle is a run from where `start` takes the state that
the cycle before it has left, up to a state that is `Stopped`. -/
inductive Cycled (M : Machine S L) (start : S → S) (Stopped : S → Prop) (s₀ : S) : S → Prop
  | loaded : Cycled M start Stopped s₀ s₀
  | cycle {s : S} (hs : Cycled M start Stopped s₀ s) (ls : List L)
      (hstopped : Stopped (M.run (start s) ls)) : Cycled M start Stopped s₀ (M.run (start s) ls)

/-- The rule for what every cycle keeps. -/
theorem Cycled.invariant {start : S → S} {Stopped I : S → Prop} {s₀ s : S} (hinit : I s₀)
    (hstart : ∀ s, I s → I (start s)) (hstep : ∀ s l s', I s → M.step s l = some s' → I s')
    (h : M.Cycled start Stopped s₀ s) : I s := by
  induction h with
  | loaded => exact hinit
  | @cycle s _ ls _ ih =>
    exact Machine.keeps (P := fun _ _ => True) (fun s l s' hs _ h => hstep s l s' hs h)
      (hstart s ih) (meets_true _ ls)

/-! ### Progress -/

/-- The state after the choices `as`, each of which `choose` turns into a label. -/
def follow {A : Type} (M : Machine S L) (choose : S → A → L) (s : S) (as : List A) : S :=
  as.foldl (fun s a => M.next s (choose s a)) s

theorem follow_stays {A : Type} {choose : S → A → L} {D : S → Prop}
    (hdone : ∀ s a, D s → D (M.next s (choose s a))) {s : S} (hs : D s) (as : List A) :
    D (M.follow choose s as) := by
  induction as generalizing s with
  | nil => exact hs
  | cons a as ih => exact ih (hdone s a hs)

/-- The rule for what is done after enough steps: where it is not done, the step that is chosen can
be taken, and leaves less work. -/
theorem follow_done {A : Type} [Inhabited A] {choose : S → A → L} {I D : S → Prop}
    (work : S → Nat)
    (hstep : ∀ s a, I s → ¬D s → ∃ s', M.step s (choose s a) = some s' ∧ I s' ∧ work s' < work s)
    (hdone : ∀ s a, D s → D (M.next s (choose s a))) {s : S} (hs : I s) {as : List A}
    (hwork : work s ≤ as.length) : D (M.follow choose s as) := by
  induction as generalizing s with
  | nil =>
    by_contra hnot
    obtain ⟨s', -, -, hlt⟩ := hstep s default hs hnot
    exact absurd (Nat.lt_of_lt_of_le hlt hwork) (Nat.not_lt_zero _)
  | cons a as ih =>
    by_cases hend : D s
    · exact follow_stays hdone hend (a :: as)
    · obtain ⟨s', hs', hI, hlt⟩ := hstep s a hs hend
      have hnext : M.follow choose s (a :: as) = M.follow choose s' as := by
        rw [follow, List.foldl_cons, next_of_step hs']
        rfl
      rw [hnext]
      exact ih hI (Nat.le_of_lt_succ (Nat.lt_of_lt_of_le hlt hwork))

/-! ### Two runs -/

/-- The rule for two runs of which one is the image of the other. -/
theorem run_map {f : S → S} (hstep : ∀ s l, M.step (f s) l = (M.step s l).map f) (s : S)
    (ls : List L) : M.run (f s) ls = f (M.run s ls) := by
  induction ls generalizing s with
  | nil => rfl
  | cons l ls ih =>
    have hnext : M.next (f s) l = f (M.next s l) := by
      rw [next, next, hstep, Option.getD_map]
    rw [run_cons, run_cons, hnext, ih]

/-- `P` holds of the states and the labels of two runs at every step that they take side by side. -/
def Meets₂ (M : Machine S L) (P : S → S → L → L → Prop) : S → S → List L → List L → Prop
  | _, _, [], [] => True
  | s, t, l :: ls, l' :: ls' => P s t l l' ∧ M.Meets₂ P (M.next s l) (M.next t l') ls ls'
  | _, _, _, _ => False

instance decidableMeets₂ (P : S → S → L → L → Prop) [∀ s t l l', Decidable (P s t l l')] :
    (s t : S) → (ls ls' : List L) → Decidable (M.Meets₂ P s t ls ls')
  | _, _, [], [] => isTrue trivial
  | s, t, l :: ls, l' :: ls' =>
    have := decidableMeets₂ P (M.next s l) (M.next t l') ls ls'
    inferInstanceAs (Decidable (P s t l l' ∧ M.Meets₂ P (M.next s l) (M.next t l') ls ls'))
  | _, _, [], _ :: _ => isFalse id
  | _, _, _ :: _, [] => isFalse id

theorem Meets₂.and {P : S → S → L → L → Prop} {Q : L → L → Prop} {s t : S} {ls ls' : List L}
    (h : M.Meets₂ P s t ls ls') (hQ : List.Forall₂ Q ls ls') :
    M.Meets₂ (fun s t l l' => P s t l l' ∧ Q l l') s t ls ls' := by
  induction hQ generalizing s t with
  | nil => trivial
  | cons hl _ ih => exact ⟨⟨h.1, hl⟩, ih h.2⟩

/-- The rule for what two runs keep in common. -/
theorem related {P : S → S → L → L → Prop} {R : S → S → Prop}
    (hstep : ∀ s t l l', R s t → P s t l l' → R (M.next s l) (M.next t l')) {s t : S}
    {ls ls' : List L} (hR : R s t) (hP : M.Meets₂ P s t ls ls') :
    R (M.run s ls) (M.run t ls') := by
  induction ls generalizing s t ls' with
  | nil =>
    cases ls' with
    | nil => exact hR
    | cons l' ls' => exact hP.elim
  | cons l ls ih =>
    cases ls' with
    | nil => exact hP.elim
    | cons l' ls' =>
      rw [run_cons, run_cons]
      exact ih (hstep s t l l' hR hP.1) hP.2

end Machine

end Library
