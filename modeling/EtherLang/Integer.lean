/-!
# The integers of the language

Arithmetic is exact and then folded into the 64-bit two's-complement range, so a result outside
the range wraps around. Division truncates toward zero.
-/

namespace EtherLang.Integer

/-- The number of 64-bit words, `2 ^ 64`. -/
def modulus : Nat := 0x10000000000000000

/-- The greatest integer of the language, `2 ^ 63 - 1`. -/
def maxValue : Int := 0x7fffffffffffffff

/-- The least integer of the language, `-2 ^ 63`. -/
def minValue : Int := -0x8000000000000000

/-- The integer of the language that is congruent to `n` modulo `2 ^ 64`. -/
def wrap (n : Int) : Int :=
  n.bmod modulus

/-- A wrapped number lies in the range of the language. -/
theorem wrap_mem (n : Int) : minValue ≤ wrap n ∧ wrap n ≤ maxValue := by
  have lower := Int.le_bmod (x := n) (m := modulus) (by decide)
  have upper := Int.bmod_lt (x := n) (m := modulus) (by decide)
  simp only [wrap, minValue, maxValue, modulus] at *
  omega

/-- Wrapping changes a number by a multiple of `2 ^ 64`. -/
theorem wrap_emod (n : Int) : wrap n % (modulus : Int) = n % (modulus : Int) :=
  Int.bmod_emod

/-- A number in the range of the language is left as it is. -/
theorem wrap_eq_self {n : Int} (lower : minValue ≤ n) (upper : n ≤ maxValue) : wrap n = n := by
  simp only [wrap, minValue, maxValue, modulus] at *
  exact Int.bmod_eq_of_le (by omega) (by omega)

/-- The quotient rounded toward zero and wrapped; there is none by zero. -/
def quotient? (a b : Int) : Option Int :=
  if b = 0 then none else some (wrap (a.tdiv b))

end EtherLang.Integer
