import Mathlib.Data.List.Basic
import Mathlib.Data.List.Forall2
import Mathlib.Tactic.Common

/-! Tables: lists whose entries are known by their index.  A table grows at its end, and an entry
is changed in place. -/

namespace Library

namespace Table

variable {α β : Type} {l : List α} {a b c : α} {i j : Nat}

/-- The entries of a table that has grown by `a`. -/
theorem getElem?_concat : (l ++ [a])[i]? = some b ↔ l[i]? = some b ∨ i = l.length ∧ b = a := by
  rcases Nat.lt_trichotomy i l.length with h | h | h
  · rw [List.getElem?_append_left h]
    simp [Nat.ne_of_lt h]
  · subst h
    simp [eq_comm]
  · have hlong : (l ++ [a]).length ≤ i := by
      rw [List.length_append, List.length_singleton]
      omega
    rw [List.getElem?_eq_none hlong, List.getElem?_eq_none (Nat.le_of_lt h)]
    simp [Nat.ne_of_gt h]

/-- An entry that has the value that a missing one has makes no difference. -/
theorem elim_concat {f : α → β} {d : β} (h : f a = d) :
    ((l ++ [a])[i]?).elim d f = (l[i]?).elim d f := by
  cases hi : (l ++ [a])[i]? with
  | some b =>
    rcases getElem?_concat.mp hi with hb | ⟨rfl, rfl⟩
    · rw [hb]
    · simp [h]
  | none =>
    have hlong := List.getElem?_eq_none_iff.mp hi
    rw [List.length_append] at hlong
    rw [List.getElem?_eq_none (by omega)]

/-- The entries of a table whose entry `i` has been changed by `f`. -/
theorem getElem?_modify {f : α → α} :
    (l.modify i f)[j]? = some b ↔ ∃ a, l[j]? = some a ∧ b = if j = i then f a else a := by
  rw [List.getElem?_modify, Option.map_eq_map, Option.map_eq_some_iff]
  constructor
  · rintro ⟨a, ha, rfl⟩
    exact ⟨a, ha, by simp only [eq_comm (a := i)]⟩
  · rintro ⟨a, ha, rfl⟩
    exact ⟨a, ha, by simp only [eq_comm (a := i)]⟩

/-- The entries of a table whose entry `i` has been replaced by `b`. -/
theorem getElem?_set (ha : l[i]? = some a) :
    (l.set i b)[j]? = some c ↔ (j = i ∧ c = b) ∨ (j ≠ i ∧ l[j]? = some c) := by
  obtain ⟨hi, -⟩ := List.getElem?_eq_some_iff.mp ha
  by_cases heq : j = i
  · subst heq
    simp [List.getElem?_set_self hi, eq_comm]
  · simp [List.getElem?_set_ne (Ne.symm heq), heq]

theorem map_set {f : α → β} (ha : l[i]? = some a) (hf : f b = f a) :
    (l.set i b).map f = l.map f := by
  obtain ⟨hi, rfl⟩ := List.getElem?_eq_some_iff.mp ha
  rw [List.map_set, hf, ← List.getElem_map f (h := by simpa using hi), List.set_getElem_self]

theorem map_modify {f : α → β} {g : α → α} (h : ∀ a, f (g a) = f a) (l : List α) (i : Nat) :
    (l.modify i g).map f = l.map f := by
  induction l generalizing i with
  | nil => rw [List.modify_nil]
  | cons b l ih =>
    cases i with
    | zero => rw [List.modify_zero_cons, List.map_cons, List.map_cons, h]
    | succ i => rw [List.modify_succ_cons, List.map_cons, List.map_cons, ih]

/-! ### Two tables side by side -/

variable {R : α → β → Prop} {m : List β} {e : β}

theorem forall₂_concat :
    List.Forall₂ R (l ++ [a]) (m ++ [e]) ↔ List.Forall₂ R l m ∧ R a e := by
  rw [← List.forall₂_reverse_iff, List.reverse_concat, List.reverse_concat, List.forall₂_cons,
    List.forall₂_reverse_iff, and_comm]

/-- A change of an entry that keeps what it is related to. -/
theorem forall₂_modify {f : α → α} (hf : ∀ a e, R a e → R (f a) e) (h : List.Forall₂ R l m) :
    List.Forall₂ R (l.modify i f) m := by
  induction h generalizing i with
  | nil => simp
  | cons hhead htail ih =>
    cases i with
    | zero => exact .cons (hf _ _ hhead) htail
    | succ i => exact .cons hhead ih

/-- A change of an entry behind those of another table. -/
theorem modify_append {f : α → α} (front l : List α) :
    (front ++ l).modify (front.length + i) f = front ++ l.modify i f := by
  induction front with
  | nil => rw [List.length_nil, Nat.zero_add, List.nil_append, List.nil_append]
  | cons b front ih =>
    rw [List.length_cons, Nat.add_right_comm]
    exact congrArg (b :: ·) ih

theorem modify_concat {f : α → α} (hi : i = l.length) : (l ++ [a]).modify i f = l ++ [f a] := by
  subst hi
  induction l with
  | nil => rfl
  | cons b l ih => exact congrArg (b :: ·) ih

/-- The entries of related tables are related. -/
theorem get_of_forall₂ {R : α → β → Prop} {as : List α} {bs : List β} (h : List.Forall₂ R as bs)
    {a : α} (ha : as[i]? = some a) : ∃ b, bs[i]? = some b ∧ R a b := by
  obtain ⟨hlength, hget⟩ := List.forall₂_iff_get.mp h
  obtain ⟨hi, rfl⟩ := List.getElem?_eq_some_iff.mp ha
  have hi' : i < bs.length := hlength ▸ hi
  exact ⟨bs[i], List.getElem?_eq_getElem hi', hget i hi hi'⟩

/-- What stands on the right of a relation of two tables has a counterpart on the left. -/
theorem exists_left {R : α → β → Prop} {as : List α} {bs : List β} (h : List.Forall₂ R as bs)
    {b : β} (hb : b ∈ bs) : ∃ a ∈ as, R a b := by
  obtain ⟨hlength, hget⟩ := List.forall₂_iff_get.mp h
  obtain ⟨⟨j, hj⟩, rfl⟩ := List.mem_iff_get.mp hb
  exact ⟨_, List.get_mem _ _, hget j (hlength ▸ hj) hj⟩

end Table

end Library
