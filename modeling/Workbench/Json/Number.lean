import Workbench.Decimal.Shortest

/-!
# Json/Number — numbers of messages

An integer within 64 bits is exact; every other number is a double.  A significand takes digits as
long as it fits in 64 bits, and the digits after that count only as powers of ten.
-/

namespace Workbench.Json

/-- A number: integers from `-2 ^ 63` up to `2 ^ 64 - 1` are exact. -/
inductive Number
  /-- A natural number below `2 ^ 64`. -/
  | natural (n : Nat)
  /-- The negative of a number from 1 up to `2 ^ 63`. -/
  | negative (n : Nat)
  /-- A double with its sign. -/
  | real (isNegative : Bool) (value : Binary64)
  deriving DecidableEq, Repr

namespace Number

/-- The text of a number. -/
def print : Number → Text
  | natural n => Text.ofNat n
  | negative n => '-' :: Text.ofNat n
  | real isNegative value => if isNegative then '-' :: value.text else value.text

/-- Extends a significand by digits as long as it stays below `2 ^ 64`; the digits left over come
second. -/
def absorb (significand : Nat) : Text → Nat × Text
  | [] => (significand, [])
  | c :: t =>
    let extended := 10 * significand + (c.toNat - '0'.toNat)
    if extended < 1 <<< 64 then absorb extended t else (significand, c :: t)

/-- The parts of a written number. -/
structure Written where
  isNegative : Bool
  whole : Text
  /-- The digits behind the point. -/
  fraction : Option Text
  /-- The exponent with its sign. -/
  exponent : Option Int

/-- The number that is written, if it is not beyond the doubles. -/
def Written.value? (w : Written) : Option Number :=
  let (significand, beyond) := absorb 0 w.whole
  let real (significand : Nat) (exponent : Int) : Option Number :=
    (Binary64.ofScientific significand exponent).map (.real w.isNegative)
  match w.fraction, w.exponent, beyond with
  | none, none, [] =>
    if ¬ w.isNegative then some (.natural significand)
    else if 0 < significand ∧ significand ≤ 1 <<< 63 then some (.negative significand)
    else real significand 0
  | fraction, exponent, beyond =>
    let places := fraction.getD []
    let (significand, unread) := absorb significand places
    let read : Int := places.length - unread.length
    real significand (beyond.length - read + exponent.getD 0)

/-- Splits off the digits at the start. -/
def digits (t : Text) : Text × Text := (t.takeWhile Char.isDigit, t.dropWhile Char.isDigit)

/-- Reads the digits behind a point, if there is a point. -/
def readFraction (t : Text) : Option (Option Text × Text) :=
  match t with
  | '.' :: t =>
    let (places, t) := digits t
    if places = [] then none else some (some places, t)
  | _ => some (none, t)

/-- Reads an exponent, if there is one. -/
def readExponent (t : Text) : Option (Option Int × Text) :=
  match t with
  | c :: t' =>
    if c = 'e' ∨ c = 'E' then
      let isNegative := t'.head? = some '-'
      let t' := if t'.head? = some '-' ∨ t'.head? = some '+' then t'.drop 1 else t'
      let (power, t') := digits t'
      if power = [] then none
      else
        let n : Int := Text.digitsValue power
        some (some (if isNegative then -n else n), t')
    else some (none, t)
  | [] => some (none, t)

/-- Reads the number that begins a text: no needless zeros before it, and digits on both sides of
a point. -/
def read (t : Text) : Option (Number × Text) := do
  let isNegative := t.head? = some '-'
  let (whole, t) := digits (if isNegative then t.drop 1 else t)
  if whole = [] ∨ (whole.head? = some '0' ∧ whole ≠ ['0']) then failure
  let (fraction, t) ← readFraction t
  let (exponent, t) ← readExponent t
  let n ← (Written.mk isNegative whole fraction exponent).value?
  return (n, t)

end Number
end Workbench.Json
