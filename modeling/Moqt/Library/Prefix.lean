import Mathlib.Data.List.Basic
import Mathlib.Data.List.Infix
import Mathlib.Tactic.Common

/-! The longest prefix of a list that a partial function is defined on, and the loop that finds it
by trying the list and dropping its last element as long as nothing is found. -/

namespace Library

namespace Prefix

variable {α β : Type} {f : List α → Option β} {xs p q : List α} {x : α} {b c : β}

/-- `p` is the longest prefix of `xs` that `f` is defined on, with the value `b`. -/
structure Longest (f : List α → Option β) (xs p : List α) (b : β) : Prop where
  isPrefix : p <+: xs
  value : f p = some b
  longest : ∀ q, q <+: xs → (f q).isSome → q.length ≤ p.length

theorem Longest.eq (h : Longest f xs p b) (h' : Longest f xs q c) : p = q ∧ b = c := by
  have hle : q.length ≤ p.length := h.longest q h'.isPrefix (by rw [h'.value]; rfl)
  have hge : p.length ≤ q.length := h'.longest p h.isPrefix (by rw [h.value]; rfl)
  have hpq : p = q := by
    rw [List.prefix_iff_eq_take.mp h.isPrefix, List.prefix_iff_eq_take.mp h'.isPrefix,
      Nat.le_antisymm hge hle]
  subst hpq
  exact ⟨rfl, Option.some.inj (h.value.symm.trans h'.value)⟩

/-- Nothing is longer than the list itself. -/
theorem Longest.self (h : f xs = some b) : Longest f xs xs b :=
  ⟨List.prefix_rfl, h, fun _ hq _ => hq.length_le⟩

/-- A proper prefix is one of the list without its last element. -/
theorem prefix_dropLast (hq : q <+: xs) (hne : q ≠ xs) : q <+: xs.dropLast := by
  have hlt : q.length < xs.length :=
    Nat.lt_of_le_of_ne hq.length_le fun heq => hne (hq.eq_of_length heq)
  apply List.prefix_of_prefix_length_le hq (List.dropLast_prefix xs)
  rw [List.length_dropLast]
  omega

/-- Where `f` is not defined on the list, its last element makes no difference. -/
theorem longest_dropLast (h : f xs = none) : Longest f xs.dropLast p b ↔ Longest f xs p b := by
  constructor
  · intro hp
    refine ⟨hp.isPrefix.trans (List.dropLast_prefix xs), hp.value, fun q hq hsome => ?_⟩
    refine hp.longest q (prefix_dropLast hq ?_) hsome
    rintro rfl
    rw [h] at hsome
    cases hsome
  · intro hp
    refine ⟨prefix_dropLast hp.isPrefix ?_, hp.value, fun q hq hsome =>
      hp.longest q (hq.trans (List.dropLast_prefix xs)) hsome⟩
    rintro rfl
    cases h.symm.trans hp.value

/-- Where `f` is defined on some prefix, it is on a longest one. -/
theorem exists_longest (hp : p <+: xs) (hsome : (f p).isSome) : ∃ q b, Longest f xs q b := by
  induction xs using List.reverseRecOn with
  | nil =>
    obtain rfl := List.prefix_nil.mp hp
    obtain ⟨b, hb⟩ := Option.isSome_iff_exists.mp hsome
    exact ⟨[], b, .self hb⟩
  | append_singleton xs x ih =>
    cases h : f (xs ++ [x]) with
    | some b => exact ⟨_, b, .self h⟩
    | none =>
      have hne : p ≠ xs ++ [x] := by
        rintro rfl
        rw [h] at hsome
        cases hsome
      have hshort : p <+: xs := by simpa using prefix_dropLast hp hne
      obtain ⟨q, b, hq⟩ := ih hshort
      exact ⟨q, b, (longest_dropLast h).mp (by simpa using hq)⟩

/-- The loop from `xs` on ends with `o`. -/
inductive Search (f : List α → Option β) : (xs : List α) → (o : Option β) → Prop
  | hit {xs : List α} {b : β} (h : f xs = some b) : Search f xs (some b)
  | empty (h : f [] = none) : Search f [] none
  | pop {xs : List α} {o : Option β} (h : f xs = none) (hne : xs ≠ [])
      (hrest : Search f xs.dropLast o) : Search f xs o

/-- The loop ends with the value of the longest prefix. -/
theorem Search.eq_some_iff {o : Option β} (h : Search f xs o) :
    o = some b ↔ ∃ p, Longest f xs p b := by
  induction h with
  | @hit xs c h =>
    constructor
    · intro heq
      obtain rfl := Option.some.inj heq
      exact ⟨xs, .self h⟩
    · rintro ⟨p, hp⟩
      rw [(hp.eq (.self h)).2]
  | empty h =>
    constructor
    · nofun
    · rintro ⟨p, hp⟩
      obtain rfl := List.prefix_nil.mp hp.isPrefix
      cases h.symm.trans hp.value
  | pop h hne hrest ih =>
    rw [ih]
    simp only [longest_dropLast h]

end Prefix

end Library
