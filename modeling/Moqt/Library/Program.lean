import Mathlib.Tactic.Common

/-! Programs with a state that keep what they have changed when they fail: what a sequence and a
loop return, and what they fail with. -/

namespace Library

variable {ε σ α β : Type}

theorem pure_eq_ok {a b : α} {s s' : σ} :
    (pure a : EStateM ε σ α) s = .ok b s' ↔ a = b ∧ s = s' := by
  show EStateM.Result.ok a s = .ok b s' ↔ _
  simp

theorem bind_of_ok {x : EStateM ε σ α} {f : α → EStateM ε σ β} {s s' : σ} {a : α}
    (h : x s = .ok a s') : (x >>= f) s = f a s' := by
  simp only [bind, EStateM.bind, h]

theorem bind_of_error {x : EStateM ε σ α} {f : α → EStateM ε σ β} {s s' : σ} {e : ε}
    (h : x s = .error e s') : (x >>= f) s = .error e s' := by
  simp only [bind, EStateM.bind, h]

theorem bind_eq_ok {x : EStateM ε σ α} {f : α → EStateM ε σ β} {s s' : σ} {b : β} :
    (x >>= f) s = .ok b s' ↔ ∃ a mid, x s = .ok a mid ∧ f a mid = .ok b s' := by
  cases hx : x s with
  | ok a mid => simp [bind_of_ok hx]
  | error e mid => simp [bind_of_error hx]

theorem bind_eq_error {x : EStateM ε σ α} {f : α → EStateM ε σ β} {s s' : σ} {e : ε}
    (h : (x >>= f) s = .error e s') :
    x s = .error e s' ∨ ∃ a mid, x s = .ok a mid ∧ f a mid = .error e s' := by
  cases hx : x s with
  | ok a mid =>
    rw [bind_of_ok hx] at h
    exact .inr ⟨a, mid, rfl, h⟩
  | error e' mid =>
    rw [bind_of_error hx] at h
    cases h
    exact .inl rfl

theorem map_eq_ok {f : α → β} {x : EStateM ε σ α} {s s' : σ} {b : β} :
    (f <$> x) s = .ok b s' ↔ ∃ a, x s = .ok a s' ∧ f a = b := by
  simp only [Functor.map, EStateM.map]
  cases x s with
  | ok a t => simp [and_comm]
  | error e t => simp

theorem get_eq_ok {a s s' : σ} : (get : EStateM ε σ σ) s = .ok a s' ↔ s = a ∧ s = s' := by
  show EStateM.Result.ok s s = .ok a s' ↔ _
  simp

theorem modify_eq_ok {f : σ → σ} {u : Unit} {s s' : σ} :
    (modify f : EStateM ε σ Unit) s = .ok u s' ↔ f s = s' := by
  show EStateM.Result.ok () (f s) = .ok u s' ↔ _
  simp

/-- The program, and `f` on what it leaves when it fails. -/
def onError (x : EStateM ε σ α) (f : σ → σ) : EStateM ε σ α :=
  tryCatch x fun e => do
    modify f
    throw e

theorem onError_eq_ok {x : EStateM ε σ α} {f : σ → σ} {a : α} {s s' : σ} :
    onError x f s = .ok a s' ↔ x s = .ok a s' := by
  simp only [onError, tryCatch, tryCatchThe, MonadExceptOf.tryCatch, EStateM.tryCatch]
  cases x s with
  | ok b mid => rfl
  | error e mid =>
    constructor
    · rintro ⟨⟩
    · rintro ⟨⟩

theorem onError_eq_error {x : EStateM ε σ α} {f : σ → σ} {e : ε} {s s' : σ} :
    onError x f s = .error e s' ↔ ∃ mid, x s = .error e mid ∧ f mid = s' := by
  simp only [onError, tryCatch, tryCatchThe, MonadExceptOf.tryCatch, EStateM.tryCatch]
  cases x s with
  | ok b mid => simp
  | error e' mid =>
    show EStateM.Result.error e' (f mid) = .error e s' ↔ _
    simp

/-- An invariant of a loop over a list, told from the items that it has come past. -/
theorem foldlM_keeps {f : α → β → EStateM ε σ α} {P : List β → α → σ → Prop}
    (hstep : ∀ done item a s a' s', P done a s → f a item s = .ok a' s' →
      P (done ++ [item]) a' s') {done items : List β} {a a' : α} {s s' : σ} (h : P done a s)
    (hrun : (items.foldlM f a) s = .ok a' s') : P (done ++ items) a' s' := by
  induction items generalizing done a s with
  | nil =>
    obtain ⟨rfl, rfl⟩ := pure_eq_ok.mp hrun
    rwa [List.append_nil]
  | cons item items ih =>
    rw [List.foldlM_cons] at hrun
    obtain ⟨mid, t, hitem, hrest⟩ := bind_eq_ok.mp hrun
    have hnext := ih (hstep done item a s mid t h hitem) hrest
    rwa [List.append_assoc, List.singleton_append] at hnext

/-- A loop that fails does so in a turn, in front of which the others have been taken. -/
theorem foldlM_fails {f : α → β → EStateM ε σ α} {P : List β → α → σ → Prop}
    (hstep : ∀ done item a s a' s', P done a s → f a item s = .ok a' s' →
      P (done ++ [item]) a' s') {done items : List β} {a : α} {s s' : σ} {e : ε} (h : P done a s)
    (hrun : items.foldlM f a s = .error e s') : ∃ front item rest a₁ s₁,
      items = front ++ item :: rest ∧ P (done ++ front) a₁ s₁ ∧ f a₁ item s₁ = .error e s' := by
  induction items generalizing done a s with
  | nil => cases hrun
  | cons item items ih =>
    rw [List.foldlM_cons] at hrun
    rcases bind_eq_error hrun with hfirst | ⟨a', mid, hfirst, hrest⟩
    · exact ⟨[], item, items, a, s, rfl, by rwa [List.append_nil], hfirst⟩
    · obtain ⟨front, item', rest, a₁, s₁, rfl, hP, hfails⟩ := ih (hstep _ _ _ _ _ _ h hfirst) hrest
      refine ⟨item :: front, item', rest, a₁, s₁, rfl, ?_, hfails⟩
      rwa [List.append_cons]

/-! ### Failures -/

/-- What the program fails with, and the state that it leaves then, satisfy `P`. -/
def FailsWith (P : ε → σ → Prop) (x : EStateM ε σ α) : Prop :=
  ∀ s e s', x s = .error e s' → P e s'

namespace FailsWith

variable {P : ε → σ → Prop} {x : EStateM ε σ α}

theorem pure (a : α) : FailsWith P (Pure.pure a : EStateM ε σ α) := by
  rintro s e s' ⟨⟩

theorem get : FailsWith P (get : EStateM ε σ σ) := by
  rintro s e s' ⟨⟩

theorem modify (f : σ → σ) : FailsWith P (modify f : EStateM ε σ Unit) := by
  rintro s e s' ⟨⟩

theorem bind {f : α → EStateM ε σ β} (hx : FailsWith P x) (hf : ∀ a, FailsWith P (f a)) :
    FailsWith P (x >>= f) := by
  intro s e s' h
  rcases bind_eq_error h with hfirst | ⟨a, mid, -, hrest⟩
  · exact hx s e s' hfirst
  · exact hf a mid e s' hrest

theorem onError {f : σ → σ} (hx : FailsWith P x) (hf : ∀ e s, P e s → P e (f s)) :
    FailsWith P (onError x f) := by
  intro s e s' h
  obtain ⟨mid, hfails, rfl⟩ := onError_eq_error.mp h
  exact hf e mid (hx s e mid hfails)

theorem foldlM {f : α → β → EStateM ε σ α} (hf : ∀ a item, FailsWith P (f a item))
    (items : List β) (a : α) : FailsWith P (items.foldlM f a) := by
  induction items generalizing a with
  | nil => exact pure a
  | cons item items ih =>
    rw [List.foldlM_cons]
    exact (hf a item).bind ih

end FailsWith

end Library
