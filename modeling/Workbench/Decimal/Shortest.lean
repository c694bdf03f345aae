import Workbench.Decimal.Binary64
import Workbench.Text.Numeral

/-!
# Decimal/Shortest — the fewest digits that read back

A double stands for the reals that round to it.  Its text has the fewest digits that name one of
these, and of such texts the nearest.  `shortest` finds the digits on the grids of 1, 2, 3, …
digits, in exact arithmetic; `text` sets them.
-/

namespace Workbench.Binary64

/-- Digits with the exponent of the first one: `3.14` is `⟨314, 0⟩`. -/
structure Digits where
  digits : Nat
  exponent : Int
  deriving DecidableEq, Repr

/-- The reals that round to a double, as quotients over one denominator: the value, the ends, and
whether the ends belong. -/
structure Interval where
  low : Nat
  value : Nat
  high : Nat
  den : Nat
  closed : Bool

/-- The reals that round to a double.  The gap below a power of two is half of the one above. -/
def interval (f : Binary64) : Interval where
  low := (4 * f.mantissa - if f.mantissa = 1 <<< 52 ∧ f.exponent ≠ minExponent then 1 else 2)
    <<< f.exponent.toNat
  value := (4 * f.mantissa) <<< f.exponent.toNat
  high := (4 * f.mantissa + 2) <<< f.exponent.toNat
  den := 4 * f.den
  closed := f.mantissa % 2 = 0

/-- Whether the quotient `n / d` lies in an interval. -/
def Interval.holds (i : Interval) (n d : Nat) : Bool :=
  let scaled := n * i.den
  if i.closed then i.low * d ≤ scaled && scaled ≤ i.high * d
  else i.low * d < scaled && scaled < i.high * d

/-- The exponent of the first digit of a quotient. -/
def leadingExponent (n d : Nat) : Int :=
  let reaches (e : Int) : Bool := d * Nat.pow 10 e.toNat ≤ n * Nat.pow 10 (-e).toNat
  let candidates := (List.range 645).map fun (i : Nat) => (320 : Int) - i
  (candidates.find? reaches).getD (-320)

/-- The point of the grid of `count` digits that lies in the interval, nearest to its value. -/
def Interval.onGrid? (i : Interval) (leading : Int) (count : Nat) : Option Digits :=
  let step := leading - count + 1
  let up := Nat.pow 10 step.toNat
  let down := Nat.pow 10 (-step).toNat
  let below := i.value * down / (i.den * up)
  let fits (n : Nat) : Bool := i.holds (n * up) down
  let rest := i.value * down % (i.den * up)
  let nearer := if 2 * rest > i.den * up ∨ (2 * rest = i.den * up ∧ below % 2 = 1)
    then below + 1 else below
  let farther := if nearer = below then below + 1 else below
  let found (n : Nat) : Digits :=
    if n = Nat.pow 10 count then ⟨Nat.pow 10 (count - 1), leading + 1⟩ else ⟨n, leading⟩
  if fits nearer then some (found nearer)
  else if fits farther then some (found farther)
  else none

/-- The shortest digits of a double that is not zero. -/
def shortest (f : Binary64) : Digits :=
  let i := f.interval
  let leading := leadingExponent i.value i.den
  ((List.range 17).findSome? fun n => i.onGrid? leading (n + 1)).getD ⟨f.mantissa, leading⟩

/-- The text of a double: positional for first digits from `10 ^ -5` up to `10 ^ 15`, with an
exponent beyond, and always with a point or an exponent. -/
def text (f : Binary64) : Text :=
  if f.isZero then "0.0"
  else
    let d := f.shortest
    let digits := Text.ofNat d.digits
    let zeros (n : Int) : Text := List.replicate n.toNat '0'
    let places : Int := digits.length
    if d.exponent < -5 ∨ 15 < d.exponent then
      let fraction : Text := if digits.length = 1 then [] else '.' :: digits.drop 1
      let sign : Text := if d.exponent < 0 then "-" else "+"
      digits.take 1 ++ fraction ++ "e" ++ sign ++ Text.ofNat d.exponent.natAbs
    else if d.exponent < 0 then "0." ++ zeros (-d.exponent - 1) ++ digits
    else if places ≤ d.exponent + 1 then digits ++ zeros (d.exponent + 1 - places) ++ ".0"
    else
      let whole := (d.exponent + 1).toNat
      digits.take whole ++ "." ++ digits.drop whole

end Workbench.Binary64
