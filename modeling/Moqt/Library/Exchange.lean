import Moqt.Library.Game

/-! Two parties that each open a stream, write a word on it, and then accept the other's stream and
read the word on it.  Nobody is done before the other one has written; and since both write before
they wait, neither waits for ever, however the bytes come. -/

namespace Library

inductive Party where
  | first
  | second
deriving DecidableEq, Repr

def Party.other : Party → Party
  | .first => .second
  | .second => .first

theorem Party.other_ne (p : Party) : p.other ≠ p := by
  cases p <;> decide

/-- What the parties write, and what they make of a front of the other's word: nothing, as long as
they have to wait. -/
structure Exchange (α : Type) where
  word : Party → List UInt8
  read : Party → List UInt8 → Option α

namespace Exchange

/-- What a party does next. -/
inductive Phase where
  | openUni
  | write
  | acceptUni
  | read
  | done
deriving DecidableEq, Repr

def Phase.hasWritten : Phase → Bool
  | .openUni | .write => false
  | .acceptUni | .read | .done => true

structure State (α : Type) where
  phase : Party → Phase := fun _ => .openUni
  /-- What the party has written. -/
  sent : Party → List UInt8 := fun _ => []
  /-- What has come to the party of the other's stream. -/
  came : Party → List UInt8 := fun _ => []
  got : Party → Option α := fun _ => none
  lost : Bool := false

inductive Label where
  | proceed (p : Party)
  | arrive (p : Party) (count : Nat)
  | lose
deriving DecidableEq, Repr

/-- Who takes the step; nobody has the connection lost. -/
inductive Task where
  | party (p : Party)
  | stream (p : Party)
deriving DecidableEq, Repr

def Label.owner : Label → Option Task
  | .proceed p => some (.party p)
  | .arrive p _ => some (.stream p)
  | .lose => none

variable {α : Type} (X : Exchange α)

def proceed (s : State α) (p : Party) : Option (State α) :=
  match s.phase p with
  | .openUni => some { s with phase := Function.update s.phase p .write }
  | .write => some { s with
      phase := Function.update s.phase p .acceptUni
      sent := Function.update s.sent p (X.word p) }
  | .acceptUni =>
    -- a stream is accepted when the first of its bytes are there
    if s.came p ≠ [] then some { s with phase := Function.update s.phase p .read } else none
  | .read => (X.read p (s.came p)).map fun a =>
    { s with
      phase := Function.update s.phase p .done
      got := Function.update s.got p (some a) }
  | .done => none

def arrive (s : State α) (p : Party) (count : Nat) : Option (State α) :=
  if 0 < count ∧ (s.came p).length + count ≤ (s.sent p.other).length then
    some { s with
      came := Function.update s.came p ((s.sent p.other).take ((s.came p).length + count)) }
  else none

def machine : Machine (State α) Label where
  init := {}
  step s l :=
    if s.lost then none
    else match l with
      | .proceed p => X.proceed s p
      | .arrive p count => arrive s p count
      | .lose => some { s with lost := true }

/-- A party that has the word as a whole makes `a` of it, and waits on every front of it. -/
structure Awaits (a : Party → α) : Prop where
  nonempty : ∀ p, X.word p ≠ []
  whole : ∀ p, X.read p (X.word p.other) = some (a p)
  front : ∀ p front, front <+: X.word p.other → front ≠ X.word p.other → X.read p front = none

variable {X}

/-- The steps of an exchange. -/
inductive Step (X : Exchange α) (s : State α) : Label → State α → Prop
  | openUni {p : Party} (hphase : s.phase p = .openUni) :
    Step X s (.proceed p) { s with phase := Function.update s.phase p .write }
  | write {p : Party} (hphase : s.phase p = .write) :
    Step X s (.proceed p) { s with
      phase := Function.update s.phase p .acceptUni
      sent := Function.update s.sent p (X.word p) }
  | acceptUni {p : Party} (hphase : s.phase p = .acceptUni) (hcame : s.came p ≠ []) :
    Step X s (.proceed p) { s with phase := Function.update s.phase p .read }
  | read {p : Party} (hphase : s.phase p = .read) {a : α} (hread : X.read p (s.came p) = some a) :
    Step X s (.proceed p) { s with
      phase := Function.update s.phase p .done
      got := Function.update s.got p (some a) }
  | arrive {p : Party} {count : Nat} (hcount : 0 < count)
      (hle : (s.came p).length + count ≤ (s.sent p.other).length) :
    Step X s (.arrive p count) { s with
      came := Function.update s.came p ((s.sent p.other).take ((s.came p).length + count)) }
  | lose : Step X s .lose { s with lost := true }

theorem Step.of_step {s s' : State α} {l : Label} (h : X.machine.step s l = some s') :
    s.lost = false ∧ Step X s l s' := by
  simp only [machine] at h
  split at h
  · cases h
  next hlost =>
    refine ⟨eq_false_of_ne_true hlost, ?_⟩
    cases l with
    | proceed p =>
      simp only [proceed] at h
      split at h
      next hphase =>
        obtain rfl := Option.some.inj h
        exact .openUni hphase
      next hphase =>
        obtain rfl := Option.some.inj h
        exact .write hphase
      next hphase =>
        split at h
        next hcame =>
          obtain rfl := Option.some.inj h
          exact .acceptUni hphase hcame
        · cases h
      next hphase =>
        obtain ⟨a, hread, rfl⟩ := Option.map_eq_some_iff.mp h
        exact .read hphase hread
      · cases h
    | arrive p count =>
      simp only [Exchange.arrive] at h
      split at h
      next hfits =>
        obtain rfl := Option.some.inj h
        exact .arrive hfits.1 hfits.2
      · cases h
    | lose =>
      obtain rfl := Option.some.inj h
      exact .lose

variable {a : Party → α} {s s' : State α}

/-- What a party has written, what has come of it, and who is done. -/
structure Inv (X : Exchange α) (a : Party → α) (s : State α) : Prop where
  sent : ∀ p, s.sent p = if (s.phase p).hasWritten then X.word p else []
  came : ∀ p, s.came p <+: s.sent p.other
  done : ∀ p, s.phase p = .done → s.got p = some (a p) ∧ s.came p = X.word p.other

namespace Inv

theorem init : Inv X a {} where
  sent _ := rfl
  came _ := List.prefix_rfl
  done _ h := by cases h

/-- What a party has written is a front of its word. -/
theorem sent_prefix (h : Inv X a s) (p : Party) : s.sent p <+: X.word p := by
  rw [h.sent p]
  split
  · exact List.prefix_rfl
  · exact List.nil_prefix

/-- A party moves on, and has written what it has to in its new phase. -/
theorem move (h : Inv X a s) (p : Party) (phase : Phase)
    (hphase : (s.phase p).hasWritten = true → phase.hasWritten = true) {got : Party → Option α}
    (hdone : ∀ q, Function.update s.phase p phase q = .done →
      got q = some (a q) ∧ s.came q = X.word q.other) :
    Inv X a { s with
      phase := Function.update s.phase p phase
      sent := Function.update s.sent p (if phase.hasWritten then X.word p else [])
      got } where
  sent q := by
    by_cases hqp : q = p
    · subst hqp
      simp only [Function.update_self]
    · simp only [Function.update_of_ne hqp]
      exact h.sent q
  came q := by
    by_cases hqp : q.other = p
    · subst hqp
      simp only [Function.update_self]
      refine (h.came q).trans ?_
      rw [h.sent]
      split
      next hwritten => rw [if_pos (hphase hwritten)]
      · exact List.nil_prefix
    · simp only [Function.update_of_ne hqp]
      exact h.came q
  done := hdone

/-- A party moves on without writing. -/
theorem move_silent (h : Inv X a s) (p : Party) (phase : Phase)
    (hphase : (s.phase p).hasWritten = phase.hasWritten) {got : Party → Option α}
    (hdone : ∀ q, Function.update s.phase p phase q = .done →
      got q = some (a q) ∧ s.came q = X.word q.other) :
    Inv X a { s with phase := Function.update s.phase p phase, got } := by
  have hnext := h.move p phase (fun hwritten => hphase ▸ hwritten) hdone
  rwa [← hphase, ← h.sent p, Function.update_eq_self] at hnext

/-- Who was done still is, when a party moves on. -/
theorem done_of_ne (h : Inv X a s) {p : Party} {phase : Phase} (hphase : phase ≠ .done) (q : Party)
    (hq : Function.update s.phase p phase q = .done) :
    s.got q = some (a q) ∧ s.came q = X.word q.other := by
  by_cases hqp : q = p
  · subst hqp
    rw [Function.update_self] at hq
    exact absurd hq hphase
  · rw [Function.update_of_ne hqp] at hq
    exact h.done q hq

theorem step (h : Inv X a s) (hawaits : X.Awaits a) {l : Label} (hstep : Step X s l s') :
    Inv X a s' := by
  cases hstep with
  | @openUni p hphase =>
    exact h.move_silent p .write (by rw [hphase]; rfl) (h.done_of_ne (by decide))
  | @write p hphase => exact h.move p .acceptUni (fun _ => rfl) (h.done_of_ne (by decide))
  | @acceptUni p hphase hcame =>
    exact h.move_silent p .read (by rw [hphase]; rfl) (h.done_of_ne (by decide))
  | @read p hphase b hread =>
    have hwhole : s.came p = X.word p.other := by
      by_contra hne
      rw [hawaits.front p _ ((h.came p).trans (h.sent_prefix p.other)) hne] at hread
      cases hread
    rw [hwhole, hawaits.whole] at hread
    obtain rfl := Option.some.inj hread
    refine h.move_silent p .done (by rw [hphase]; rfl) fun q hq => ?_
    by_cases hqp : q = p
    · subst hqp
      exact ⟨Function.update_self .., hwhole⟩
    · rw [Function.update_of_ne hqp] at hq ⊢
      exact h.done q hq
  | @arrive p count hcount hle =>
    refine ⟨h.sent, fun q => ?_, fun q hq => ?_⟩
    · by_cases hqp : q = p
      · subst hqp
        simp only [Function.update_self]
        exact List.take_prefix _ _
      · simp only [Function.update_of_ne hqp]
        exact h.came q
    · by_cases hqp : q = p
      · subst hqp
        -- nothing more can come to a party that is done
        have hlength := (h.sent_prefix q.other).length_le
        rw [(h.done q hq).2] at hle
        omega
      · simp only [Function.update_of_ne hqp]
        exact h.done q hq
  | lose => exact ⟨h.sent, h.came, h.done⟩

end Inv

theorem inv_of_reachable (hawaits : X.Awaits a) (h : X.machine.Reachable s) : Inv X a s :=
  h.invariant .init fun _ _ _ hs hstep => hs.step hawaits (Step.of_step hstep).2

/-! ### Progress -/

/-- The steps that a party has before it. -/
def Phase.left : Phase → Nat
  | .openUni => 4
  | .write => 3
  | .acceptUni => 2
  | .read => 1
  | .done => 0

def workOf (X : Exchange α) (s : State α) (p : Party) : Nat :=
  (s.phase p).left + ((X.word p.other).length - (s.came p).length)

def work (X : Exchange α) (s : State α) : Nat := X.workOf s .first + X.workOf s .second

theorem work_lt {p : Party} (h : X.workOf s' p < X.workOf s p)
    (hother : X.workOf s' p.other = X.workOf s p.other) : X.work s' < X.work s := by
  unfold work
  cases p with
  | first =>
    have hother : X.workOf s' .second = X.workOf s .second := hother
    omega
  | second =>
    have hother : X.workOf s' .first = X.workOf s .first := hother
    omega

/-- A party that moves on has less left. -/
theorem work_lt_of_phase (p : Party) {phase : Phase} (h : phase.left < (s.phase p).left)
    (hphase : s'.phase = Function.update s.phase p phase) (hcame : s'.came = s.came) :
    X.work s' < X.work s := by
  refine work_lt (p := p) ?_ ?_
  · rw [workOf, workOf, hphase, hcame, Function.update_self]
    omega
  · rw [workOf, workOf, hphase, hcame, Function.update_of_ne p.other_ne]

/-- Every step but the loss of the connection leaves less work. -/
theorem Step.work_lt (h : Inv X a s) {l : Label} (hstep : Step X s l s') (hl : l ≠ .lose) :
    X.work s' < X.work s ∧ s'.lost = s.lost := by
  cases hstep with
  | @openUni p hphase | @write p hphase | @acceptUni p hphase | @read p hphase =>
    exact ⟨work_lt_of_phase p (by rw [hphase]; decide) rfl rfl, rfl⟩
  | @arrive p count hcount hle =>
    refine ⟨Exchange.work_lt (p := p) ?_ ?_, rfl⟩
    · have hlength := (h.sent_prefix p.other).length_le
      simp only [workOf, Function.update_self, List.length_take]
      omega
    · simp only [workOf, Function.update_of_ne p.other_ne]
  | lose => exact absurd rfl hl

theorem step_proceed (hlost : s.lost = false) (p : Party) :
    X.machine.step s (.proceed p) = X.proceed s p := by
  simp [machine, hlost]

/-- Where a party is not done, somebody can take a step. -/
theorem Inv.enabled (h : Inv X a s) (hawaits : X.Awaits a) (hlost : s.lost = false) (p : Party)
    (hphase : s.phase p ≠ .done) :
    ∃ t l s', Label.owner l = some t ∧ X.machine.step s l = some s' := by
  have unwritten (q : Party) (hq : (s.phase q).hasWritten = false) :
      ∃ t l s', Label.owner l = some t ∧ X.machine.step s l = some s' := by
    refine ⟨.party q, .proceed q, ?_⟩
    rw [step_proceed hlost]
    cases hq' : s.phase q with
    | openUni | write => simp [proceed, hq', Label.owner]
    | acceptUni | read | done =>
      rw [hq'] at hq
      cases hq
  by_cases hwritten : (s.phase p).hasWritten = true
  · by_cases hother : (s.phase p.other).hasWritten = true
    · have hsent := h.sent p.other
      rw [if_pos hother] at hsent
      by_cases hwhole : s.came p = X.word p.other
      · -- the word is there, and the party can go on
        refine ⟨.party p, .proceed p, ?_⟩
        rw [step_proceed hlost]
        cases hphase' : s.phase p with
        | openUni | write =>
          rw [hphase'] at hwritten
          cases hwritten
        | acceptUni =>
          have hcame : s.came p ≠ [] := hwhole ▸ hawaits.nonempty p.other
          simp [proceed, hphase', hcame, Label.owner]
        | read => simp [proceed, hphase', hwhole, hawaits.whole, Label.owner]
        | done => exact absurd hphase' hphase
      · have hshort : (s.came p).length + 1 ≤ (s.sent p.other).length := by
          have hle := (h.came p).length_le
          have hne : (s.came p).length ≠ (s.sent p.other).length := fun heq =>
            hwhole (((h.came p).eq_of_length heq).trans hsent)
          omega
        have harrive : X.machine.step s (.arrive p 1) = arrive s p 1 := by simp [machine, hlost]
        refine ⟨.stream p, .arrive p 1, ?_⟩
        rw [harrive, arrive, if_pos ⟨Nat.one_pos, hshort⟩]
        exact ⟨_, rfl, rfl⟩
    · exact unwritten p.other (eq_false_of_ne_true hother)
  · exact unwritten p (eq_false_of_ne_true hwritten)

/-- As long as the connection is not lost, the exchange can be brought to its end, however many
bytes come at a time. -/
theorem Inv.forces (h : Inv X a s) (hawaits : X.Awaits a) (hlost : s.lost = false) :
    X.machine.Forces Label.owner (fun s => ∀ p, s.phase p = .done) s := by
  refine Machine.Forces.of_work (I := fun s => Inv X a s ∧ s.lost = false) X.work ?_ ⟨h, hlost⟩
  rintro s ⟨hs, hlost⟩ hleft
  obtain ⟨p, hp⟩ := not_forall.mp hleft
  obtain ⟨t, l, s', howner, hstep⟩ := hs.enabled hawaits hlost p hp
  refine ⟨t, ⟨l, s', howner, hstep⟩, fun l s' howner hstep => ?_⟩
  obtain ⟨-, hstep⟩ := Step.of_step hstep
  have hl : l ≠ .lose := by
    rintro rfl
    cases howner
  obtain ⟨hlt, hsame⟩ := hstep.work_lt hs hl
  exact ⟨⟨hs.step hawaits hstep, hsame.trans hlost⟩, hlt⟩

end Exchange

end Library
