/-!
# Whole numbers as doubles

A double holds 53 significant binary digits. `nearest n` is the double next to the natural number
`n`, and from `overflow` on a magnitude is next to no double any more. Doubles are written here as
the natural numbers that they are.

* `nearest_of_lt`: a number of at most 53 binary digits is a double itself.
* `nearest_near`: the nearest double is within half the distance between doubles.
-/

namespace ApnRegistry.Json.Double

/-- The distance between the doubles around `n`. -/
def spacing (n : Nat) : Nat := 1 <<< (n.log2 + 1 - 53)

/-- The double next to `n`; of two that are equally near, the one that is an even multiple of the
spacing. -/
def nearest (n : Nat) : Nat :=
  let below := n / spacing n
  let excess := 2 * (n % spacing n)
  if excess < spacing n ∨ excess = spacing n ∧ below % 2 = 0 then below * spacing n
  else (below + 1) * spacing n

/-- The least magnitude that is next to no double. -/
def overflow : Nat := (1 <<< 1024) - (1 <<< 970)

theorem spacing_pos (n : Nat) : 0 < spacing n := by
  rw [spacing, Nat.one_shiftLeft]
  exact Nat.two_pow_pos _

theorem nearest_of_lt {n : Nat} (h : n < 1 <<< 53) : nearest n = n := by
  have hs : spacing n = 1 := by
    have : n.log2 + 1 - 53 = 0 := by
      by_cases hn : n = 0
      · subst hn
        decide
      · have := (Nat.log2_lt hn).2 (Nat.one_shiftLeft 53 ▸ h)
        omega
    rw [spacing, this, Nat.shiftLeft_zero]
  simp [nearest, hs, Nat.mod_one]

/-- The nearest double is at most half the spacing away. -/
theorem nearest_near (n : Nat) :
    2 * nearest n ≤ 2 * n + spacing n ∧ 2 * n ≤ 2 * nearest n + spacing n := by
  have hn := Nat.div_add_mod n (spacing n)
  have hlt := Nat.mod_lt n (spacing_pos n)
  have hq := Nat.mul_comm (n / spacing n) (spacing n)
  have hq' := Nat.succ_mul (n / spacing n) (spacing n)
  rw [Nat.succ_eq_add_one] at hq'
  simp only [nearest]
  split <;> omega

end ApnRegistry.Json.Double
