import Workbench.Text.Basic

/-!
# Text/Numeral — natural numbers as digits

Numbers are written without leading zeros and read with or without them.  A count fits in 64 bits.
-/

namespace Workbench.Text

/-- The decimal digits of a number. -/
def ofNat (n : Nat) : Text := Nat.toDigits 10 n

/-- The number that decimal digits stand for. -/
def digitsValue (digits : Text) : Nat :=
  digits.foldl (fun n c => 10 * n + (c.toNat - '0'.toNat)) 0

/-- A count below `2 ^ 64`: decimal digits, which a plus sign may precede. -/
def count? (t : Text) : Option Nat :=
  let digits := (dropMark? "+" t).getD t
  if digits ≠ [] ∧ digits.all Char.isDigit ∧ digitsValue digits < 1 <<< 64 then
    some (digitsValue digits)
  else none

/-- The digits of a number to base sixteen, in small letters. -/
def hex (n : Nat) : Text := Nat.toDigits 16 n

/-- The value of a digit to a base of at most sixteen, in letters of either case. -/
def digitIn? (base : Nat) (c : Char) : Option Nat :=
  let value :=
    if c.isDigit then c.toNat - '0'.toNat
    else if 'a' ≤ c ∧ c ≤ 'f' then c.toNat - 'a'.toNat + 10
    else if 'A' ≤ c ∧ c ≤ 'F' then c.toNat - 'A'.toNat + 10
    else base
  if value < base then some value else none

/-- The value of digits to base sixteen. -/
def hexValue? (digits : Text) : Option Nat :=
  digits.foldlM (fun n c => (digitIn? 16 c).map (16 * n + ·)) 0

/-- A number right-aligned in a field of the given width. -/
def padLeft (width : Nat) (t : Text) : Text := List.replicate (width - t.length) ' ' ++ t

end Workbench.Text
