/-!
# Rounding a quotient

Division of natural numbers to the nearest integer, a half going to the even neighbour. Both the
fixed-place printer and the decimal reader round through this one function.
-/

namespace LiveConstraints.Decimal

/-- The integer nearest to `num / den`; a quotient half way between two integers goes to the even
one. -/
def roundEven (num den : Nat) : Nat :=
  let quotient := num / den
  let twice := 2 * (num % den)
  if twice < den then quotient
  else if den < twice then quotient + 1
  else if quotient % 2 = 0 then quotient else quotient + 1

end LiveConstraints.Decimal
