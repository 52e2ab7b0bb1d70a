import Mathlib.Algebra.Group.Nat.Defs
import Mathlib.Tactic.Common

/-! Natural numbers in double precision.  A double has 53 significant bits; a result that needs more
is rounded to the nearest double, and to the one with an even last bit if two are as near.  Numbers
past the largest double are not told apart from the others here. -/

namespace Library.Double

/-- The quotient of `n` by `2 ^ s`, rounded to the nearest integer, and to the even one of two. -/
def roundedShift (n s : Nat) : Nat :=
  if 2 * (n % 2 ^ s) < 2 ^ s ∨ (2 * (n % 2 ^ s) = 2 ^ s ∧ n / 2 ^ s % 2 = 0) then n / 2 ^ s
  else n / 2 ^ s + 1

/-- The bits of `n` that a double has no room for. -/
def excess (n : Nat) : Nat := n.log2 + 1 - 53

/-- The double that is nearest to `n`. -/
def round (n : Nat) : Nat := roundedShift n (excess n) * 2 ^ excess n

/-- The sum of two doubles. -/
def add (a b : Nat) : Nat := round (a + b)

/-- A double holds `n`. -/
def Holds (n : Nat) : Prop := round n = n

instance (n : Nat) : Decidable (Holds n) := inferInstanceAs (Decidable (_ = _))

theorem excess_le {n s : Nat} (h : n < 2 ^ (53 + s)) : excess n ≤ s := by
  rcases Nat.eq_zero_or_pos n with rfl | hpos
  · simp [excess]
  · have hlog := (Nat.log2_lt (Nat.ne_of_gt hpos)).mpr h
    unfold excess
    omega

theorem le_excess {n s : Nat} (h : 2 ^ (52 + s) ≤ n) : s ≤ excess n := by
  have hpos : n ≠ 0 := Nat.ne_of_gt (Nat.lt_of_lt_of_le (Nat.two_pow_pos _) h)
  have hlog := (Nat.le_log2 hpos).mpr h
  unfold excess
  omega

theorem roundedShift_of_dvd {n s : Nat} (h : 2 ^ s ∣ n) : roundedShift n s * 2 ^ s = n := by
  have hpos := Nat.two_pow_pos s
  rw [roundedShift, Nat.mod_eq_zero_of_dvd h, if_pos (.inl (by omega)), Nat.div_mul_cancel h]

/-- A number is held if its last bits are zero where there is no room for them. -/
theorem holds_of_dvd {n s : Nat} (hdvd : 2 ^ s ∣ n) (h : n < 2 ^ (53 + s)) : Holds n :=
  roundedShift_of_dvd (Nat.dvd_trans (Nat.pow_dvd_pow 2 (excess_le h)) hdvd)

theorem holds_of_lt {n : Nat} (h : n < 2 ^ 53) : Holds n :=
  holds_of_dvd (s := 0) (Nat.one_dvd n) h

theorem dvd_round {n s : Nat} (h : 2 ^ (52 + s) ≤ n) : 2 ^ s ∣ round n :=
  Nat.dvd_trans (Nat.pow_dvd_pow 2 (le_excess h)) (Nat.dvd_mul_left _ _)

theorem div_le_roundedShift (n s : Nat) : n / 2 ^ s ≤ roundedShift n s := by
  unfold roundedShift
  split <;> omega

/-- Rounding does not go below a power of two. -/
theorem two_pow_le_round {n k : Nat} (h : 2 ^ k ≤ n) : 2 ^ k ≤ round n := by
  have hshift := Nat.mul_le_mul_right (2 ^ excess n) (div_le_roundedShift n (excess n))
  refine Nat.le_trans ?_ hshift
  have hpos := Nat.two_pow_pos (excess n)
  rcases Nat.le_total (excess n) k with hle | hle
  · obtain ⟨j, rfl⟩ := Nat.exists_eq_add_of_le hle
    rw [Nat.pow_add, Nat.mul_comm]
    refine Nat.mul_le_mul_right _ ((Nat.le_div_iff_mul_le hpos).mpr ?_)
    rwa [Nat.mul_comm, ← Nat.pow_add]
  · have hlog : 2 ^ excess n ≤ n := by
      rcases Nat.eq_zero_or_pos n with rfl | hn
      · exact absurd (Nat.two_pow_pos k) (by omega)
      · have hlog : excess n ≤ n.log2 := by
          unfold excess
          omega
        exact Nat.le_trans (Nat.pow_le_pow_right (by decide) hlog)
          (Nat.log2_self_le (Nat.ne_of_gt hn))
    calc 2 ^ k ≤ 2 ^ excess n := Nat.pow_le_pow_right (by decide) hle
      _ = 1 * 2 ^ excess n := (Nat.one_mul _).symm
      _ ≤ n / 2 ^ excess n * 2 ^ excess n :=
        Nat.mul_le_mul_right _ ((Nat.le_div_iff_mul_le hpos).mpr (by rwa [Nat.one_mul]))

/-- Past `2 ^ 53` every double is even. -/
theorem even_round {n : Nat} (h : 2 ^ 53 ≤ n) : round n % 2 = 0 :=
  Nat.mod_eq_zero_of_dvd (dvd_round (s := 1) h)

example : round (2 ^ 53 + 1) = 2 ^ 53 := by decide

end Library.Double
