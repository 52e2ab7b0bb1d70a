import Mathlib.Data.List.Basic
import Mathlib.Tactic.Common

/-! How long lock guards live.  A guard that is a temporary lives to the end of its statement, and
where the statement is a `match` on it, to the end of the last arm; a guard that is bound lives to
the end of its block, or until it is dropped. -/

namespace Library

/-- The code of an asynchronous function, as far as it takes guards of the mutexes `M` and waits
for its peers at the points `P`.  A loop is its body: what the body takes, it gives back. -/
inductive Scoped (M P : Type)
  | done
  | wait (p : P) (rest : Scoped M P)
  | temporary (m : M) (statement rest : Scoped M P)
  | bind (m : M) (rest : Scoped M P)
  | drop (m : M) (rest : Scoped M P)
  | block (body rest : Scoped M P)
  | branch (left right : Scoped M P)

namespace Scoped

variable {M P : Type} [DecidableEq M]

/-- Code that starts with the guards `held` can come to wait at a point, with the guards that it
holds there. -/
inductive Waits : (held : List M) → Scoped M P → P → List M → Prop
  | here {held : List M} {p : P} {rest : Scoped M P} : Waits held (.wait p rest) p held
  | later {held held' : List M} {p q : P} {rest : Scoped M P} (h : Waits held rest q held') :
    Waits held (.wait p rest) q held'
  | within {held held' : List M} {m : M} {q : P} {statement rest : Scoped M P}
      (h : Waits (m :: held) statement q held') : Waits held (.temporary m statement rest) q held'
  | behind {held held' : List M} {m : M} {q : P} {statement rest : Scoped M P}
      (h : Waits held rest q held') : Waits held (.temporary m statement rest) q held'
  | bound {held held' : List M} {m : M} {q : P} {rest : Scoped M P}
      (h : Waits (m :: held) rest q held') : Waits held (.bind m rest) q held'
  | dropped {held held' : List M} {m : M} {q : P} {rest : Scoped M P}
      (h : Waits (held.erase m) rest q held') : Waits held (.drop m rest) q held'
  | inside {held held' : List M} {q : P} {body rest : Scoped M P} (h : Waits held body q held') :
    Waits held (.block body rest) q held'
  | outside {held held' : List M} {q : P} {body rest : Scoped M P} (h : Waits held rest q held') :
    Waits held (.block body rest) q held'
  | left {held held' : List M} {q : P} {left right : Scoped M P} (h : Waits held left q held') :
    Waits held (.branch left right) q held'
  | right {held held' : List M} {q : P} {left right : Scoped M P} (h : Waits held right q held') :
    Waits held (.branch left right) q held'

/-- The points with the guards that are held there. -/
def points : (held : List M) → Scoped M P → List (P × List M)
  | _, .done => []
  | held, .wait p rest => (p, held) :: points held rest
  | held, .temporary m statement rest => points (m :: held) statement ++ points held rest
  | held, .bind m rest => points (m :: held) rest
  | held, .drop m rest => points (held.erase m) rest
  | held, .block body rest => points held body ++ points held rest
  | held, .branch left right => points held left ++ points held right

theorem waits_iff_mem_points {held held' : List M} {code : Scoped M P} {q : P} :
    Waits held code q held' ↔ (q, held') ∈ points held code := by
  constructor
  · intro h
    induction h with
    | here => exact List.mem_cons_self
    | later _ ih => exact List.mem_cons_of_mem _ ih
    | within _ ih | inside _ ih | left _ ih => exact List.mem_append_left _ ih
    | behind _ ih | outside _ ih | right _ ih => exact List.mem_append_right _ ih
    | bound _ ih | dropped _ ih => exact ih
  · intro h
    induction code generalizing held with
    | done => cases h
    | wait p rest ih =>
      rcases List.mem_cons.mp h with heq | h
      · obtain ⟨rfl, rfl⟩ := Prod.mk.inj heq
        exact .here
      · exact .later (ih h)
    | temporary m statement rest ihs ihr =>
      rcases List.mem_append.mp h with h | h
      · exact .within (ihs h)
      · exact .behind (ihr h)
    | bind m rest ih => exact .bound (ih h)
    | drop m rest ih => exact .dropped (ih h)
    | block body rest ihb ihr =>
      rcases List.mem_append.mp h with h | h
      · exact .inside (ihb h)
      · exact .outside (ihr h)
    | branch left right ihl ihr =>
      rcases List.mem_append.mp h with h | h
      · exact .left (ihl h)
      · exact .right (ihr h)

/-- The code waits at the point `p` with a guard of `m`. -/
def WaitsWith (code : Scoped M P) (m : M) (p : P) : Prop := ∃ held, Waits [] code p held ∧ m ∈ held

theorem waitsWith_iff {code : Scoped M P} {m : M} {p : P} :
    code.WaitsWith m p ↔ ∃ x ∈ points [] code, x.1 = p ∧ m ∈ x.2 := by
  simp only [WaitsWith, waits_iff_mem_points]
  constructor
  · rintro ⟨held, hmem, hm⟩
    exact ⟨_, hmem, rfl, hm⟩
  · rintro ⟨⟨_, held⟩, hmem, rfl, hm⟩
    exact ⟨held, hmem, hm⟩

instance [DecidableEq P] (code : Scoped M P) (m : M) (p : P) : Decidable (code.WaitsWith m p) :=
  decidable_of_iff _ waitsWith_iff.symm

end Scoped

end Library
