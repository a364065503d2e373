/-!
# Rounding a quotient to the nearest integer

One function rounds every quotient in this library: binary significands, decimal digits and fixed
places all come from it. The main statements say that the result is within half a unit of the
exact quotient, and that a tie goes to the even neighbour.
-/

namespace Assay

/-- The integer nearest to `n / d`; a quotient halfway between two integers goes to the even one. -/
def roundHalfEven (n d : Nat) : Nat :=
  if 2 * (n % d) < d then n / d
  else if 2 * (n % d) > d then n / d + 1
  else if n / d % 2 = 0 then n / d
  else n / d + 1

/-- The rounded quotient is the floor or its successor. -/
theorem roundHalfEven_eq_or (n d : Nat) :
    roundHalfEven n d = n / d ∨ roundHalfEven n d = n / d + 1 := by
  unfold roundHalfEven
  split
  · exact .inl rfl
  · split
    · exact .inr rfl
    · split
      · exact .inl rfl
      · exact .inr rfl

/-- Twice the distance from the exact quotient, in units of the divisor, is at most one. -/
theorem roundHalfEven_near (n : Nat) {d : Nat} (hd : 0 < d) :
    2 * (roundHalfEven n d * d) ≤ 2 * n + d ∧ 2 * n ≤ 2 * (roundHalfEven n d * d) + d := by
  have key : d * (n / d) + n % d = n := Nat.div_add_mod n d
  have small : n % d < d := Nat.mod_lt n hd
  have same : n / d * d = d * (n / d) := Nat.mul_comm _ _
  have next : (n / d + 1) * d = d * (n / d) + d := by rw [Nat.add_mul, same, Nat.one_mul]
  unfold roundHalfEven
  split
  · rw [same]; omega
  · split
    · rw [next]; omega
    · split
      · rw [same]; omega
      · rw [next]; omega

/-- A tie goes to an even integer. -/
theorem roundHalfEven_even_of_tie {n d : Nat} (tie : 2 * (n % d) = d) :
    roundHalfEven n d % 2 = 0 := by
  unfold roundHalfEven
  split
  · omega
  · split
    · omega
    · split
      · assumption
      · omega

end Assay
