/-!
# Decimal/Binary64 — double precision numbers, in natural numbers

A double is a mantissa times a power of two.  `nearest` rounds a quotient of natural numbers to a
double, and every operation is the exact result, rounded once.
-/

namespace Workbench

/-- A finite double that is not negative: `mantissa * 2 ^ exponent`, where the mantissa has 53 bits
unless the exponent is the least one. -/
structure Binary64 where
  mantissa : Nat
  exponent : Int
  deriving DecidableEq, Repr

namespace Binary64

/-- The least exponent. -/
def minExponent : Int := -1074

/-- The greatest exponent. -/
def maxExponent : Int := 971

/-- Positive zero. -/
def zero : Binary64 := ⟨0, minExponent⟩

/-- Whether the value is zero. -/
def isZero (f : Binary64) : Bool := f.mantissa = 0

/-- The numerator of the value as a quotient of natural numbers. -/
def num (f : Binary64) : Nat := f.mantissa <<< f.exponent.toNat

/-- The denominator of the value as a quotient of natural numbers. -/
def den (f : Binary64) : Nat := 1 <<< (-f.exponent).toNat

/-- A quotient rounded to the nearest natural number, halves to the even one. -/
def roundDiv (num den : Nat) : Nat :=
  let whole := num / den
  let rest := num % den
  if 2 * rest > den ∨ (2 * rest = den ∧ whole % 2 = 1) then whole + 1 else whole

/-- The double nearest to a quotient, and none if that is beyond the greatest one. -/
def nearest (num den : Nat) : Option Binary64 :=
  if num = 0 then some zero
  else
    let scaled (e : Int) : Nat × Nat := (num <<< (-e).toNat, den <<< e.toNat)
    let least := max minExponent ((Nat.log2 num : Int) - (Nat.log2 den : Int) - 53)
    let exponent :=
      if (scaled least).1 / (scaled least).2 < 1 <<< 53 then least else least + 1
    let mantissa := roundDiv (scaled exponent).1 (scaled exponent).2
    let rounded : Binary64 :=
      if mantissa = 1 <<< 53 then ⟨1 <<< 52, exponent + 1⟩ else ⟨mantissa, exponent⟩
    if rounded.exponent ≤ maxExponent then some rounded else none

/-- The double nearest to a natural number. -/
def ofNat (n : Nat) : Option Binary64 := nearest n 1

/-- The product, rounded to nearest; none if it is too large. -/
def mul (f g : Binary64) : Option Binary64 := nearest (f.num * g.num) (f.den * g.den)

/-- The quotient, rounded to nearest; none if it is too large. -/
def div (f g : Binary64) : Option Binary64 := nearest (f.num * g.den) (f.den * g.num)

/-- The greatest power of ten that is a double has this exponent. -/
def maxPower : Nat := 308

/-- The double nearest to a power of ten. -/
def powerOfTen (n : Nat) : Option Binary64 := ofNat (Nat.pow 10 n)

/-- A double over a power of ten, in steps of the greatest one. -/
def divPower (f : Binary64) (n : Nat) : Option Binary64 :=
  if n ≤ maxPower then do div f (← powerOfTen n)
  else if f.isZero then some f
  else do divPower (← div f (← powerOfTen maxPower)) (n - maxPower)
termination_by n
decreasing_by
  rename_i large _
  simp only [maxPower] at large ⊢
  omega

/-- A significand times a power of ten: the significand is rounded first, the product or quotient
after that.  There is none if the result is beyond the greatest double. -/
def ofScientific (significand : Nat) (exponent : Int) : Option Binary64 := do
  let f ← ofNat significand
  if exponent < 0 then divPower f (-exponent).toNat
  else if exponent.toNat ≤ maxPower then mul f (← powerOfTen exponent.toNat)
  else if f.isZero then some f
  else none

end Binary64
end Workbench
