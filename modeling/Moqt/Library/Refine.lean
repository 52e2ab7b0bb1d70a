import Moqt.Library.Program

/-! The methods of an object, and what they stand for.  A method keeps what it has changed when it
fails.  It refines another one, over another state, if from related states the two return the same
or fail with the same error, and leave related states; a caller that uses the methods one after the
other, also behind a failure, cannot tell which of them it uses. -/

namespace Library

variable {ε σ τ α β ι γ : Type} {R E : σ → τ → Prop}

/-- The results are the same.  The states are related by `R` behind a return, and by `E` behind a
failure. -/
inductive SameResult (R E : σ → τ → Prop) :
    EStateM.Result ε σ α → EStateM.Result ε τ α → Prop
  | ok {a : α} {s : σ} {t : τ} (h : R s t) : SameResult R E (.ok a s) (.ok a t)
  | error {e : ε} {s : σ} {t : τ} (h : E s t) : SameResult R E (.error e s) (.error e t)

/-- From related states, `x` and `y` have the same result. -/
def Refines (R E : σ → τ → Prop) (x : EStateM ε σ α) (y : EStateM ε τ α) : Prop :=
  ∀ s t, R s t → SameResult R E (x s) (y t)

namespace Refines

variable {x : EStateM ε σ α} {y : EStateM ε τ α}

theorem pure (a : α) : Refines R E (Pure.pure a : EStateM ε σ α) (Pure.pure a) :=
  fun _ _ h => .ok h

theorem throw (hE : ∀ s t, R s t → E s t) (e : ε) :
    Refines R E (MonadExcept.throw e : EStateM ε σ α) (MonadExcept.throw e) :=
  fun s t h => .error (hE s t h)

theorem bind {f : α → EStateM ε σ β} {g : α → EStateM ε τ β} (hx : Refines R E x y)
    (hf : ∀ a, Refines R E (f a) (g a)) : Refines R E (x >>= f) (y >>= g) := by
  intro s t h
  have hfirst := hx s t h
  simp only [Bind.bind, EStateM.bind]
  generalize x s = p at hfirst
  generalize y t = q at hfirst
  cases hfirst with
  | ok hmid => exact hf _ _ _ hmid
  | error hfailed => exact .error hfailed

theorem map (f : α → β) (hx : Refines R E x y) : Refines R E (f <$> x) (f <$> y) := by
  intro s t h
  have hfirst := hx s t h
  simp only [Functor.map, EStateM.map]
  generalize x s = p at hfirst
  generalize y t = q at hfirst
  cases hfirst with
  | ok hmid => exact .ok hmid
  | error hfailed => exact .error hfailed

theorem ite {p : Prop} [Decidable p] {x' : EStateM ε σ α} {y' : EStateM ε τ α}
    (hx : Refines R E x y) (hx' : Refines R E x' y') :
    Refines R E (if p then x else x') (if p then y else y') := by
  split
  · exact hx
  · exact hx'

end Refines

/-! ### Callers -/

/-- One call after the other, each on the object as the one before has left it. -/
def runCalls (exec : ι → EStateM ε σ α) : List ι → σ → List (Except ε α) × σ
  | [], s => ([], s)
  | call :: calls, s =>
    match exec call s with
    | .ok a s' => ((.ok a) :: (runCalls exec calls s').1, (runCalls exec calls s').2)
    | .error e s' => ((.error e) :: (runCalls exec calls s').1, (runCalls exec calls s').2)

theorem runCalls_refines {exec : ι → EStateM ε σ α} {spec : ι → EStateM ε τ α}
    (h : ∀ call, Refines R R (exec call) (spec call)) (calls : List ι) {s : σ} {t : τ}
    (hR : R s t) : (runCalls exec calls s).1 = (runCalls spec calls t).1 ∧
      R (runCalls exec calls s).2 (runCalls spec calls t).2 := by
  induction calls generalizing s t with
  | nil => exact ⟨rfl, hR⟩
  | cons call calls ih =>
    have hcall := h call s t hR
    simp only [runCalls]
    generalize exec call s = p at hcall
    generalize spec call t = q at hcall
    cases hcall with
    | ok hmid =>
      obtain ⟨hresults, hend⟩ := ih hmid
      exact ⟨congrArg _ hresults, hend⟩
    | error hfailed =>
      obtain ⟨hresults, hend⟩ := ih hfailed
      exact ⟨congrArg _ hresults, hend⟩

/-- If no call fails, what the calls return and what is left of the content is the content. -/
theorem runCalls_content {exec : ι → EStateM ε σ α} {P : σ → Prop} (content : σ → List γ)
    (taken : α → List γ)
    (hok : ∀ call s a s', P s → exec call s = .ok a s' →
      P s' ∧ content s = taken a ++ content s') {calls : List ι} {s : σ} {values : List α}
    (hs : P s) (hvalues : (runCalls exec calls s).1 = values.map .ok) :
    (values.map taken).flatten ++ content (runCalls exec calls s).2 = content s := by
  induction calls generalizing s values with
  | nil =>
    obtain rfl := List.map_eq_nil_iff.mp hvalues.symm
    rfl
  | cons call calls ih =>
    simp only [runCalls] at hvalues ⊢
    split at hvalues
    next a s' hcall =>
      obtain ⟨value, values, rfl, hvalue, hrest⟩ := List.map_eq_cons_iff.mp hvalues.symm
      obtain rfl := Except.ok.inj hvalue
      obtain ⟨hs', hcontent⟩ := hok call s _ _ hs hcall
      have hih := ih hs' hrest.symm
      rw [hcontent, List.map_cons, List.flatten_cons, List.append_assoc, hih]
    next e s' hcall =>
      obtain ⟨value, values, rfl, hvalue, -⟩ := List.map_eq_cons_iff.mp hvalues.symm
      cases hvalue

end Library
