import ReflectedSchema.Number.Shortest

/-!
# Doubles with a given number of digits

A double is written with a number of digits after the point, or with a number of significant digits and
an exponent.  The last digit is rounded from the exact value, a half to the even neighbour.
-/

namespace ReflectedSchema

namespace Decimal

/-- Digits with a point in front of the last `places`; where there are none, the point stands only if
it is kept. -/
def pointed (digits : Nat) (places : Nat) (keepPoint : Bool) : List Char :=
  let written := (toString digits).toList
  let padded := List.replicate (places + 1 - written.length) '0' ++ written
  let whole := padded.length - places
  if places = 0 && !keepPoint then padded else padded.take whole ++ '.' :: padded.drop whole

/-- The double `m · 2 ^ e` with a number of places. -/
def fixed (m : Nat) (e : Int) (places : Nat) (keepPoint : Bool) : List Char :=
  let (value, one) := crossed (m * Nat.pow 10 places) 0 1 (-e)
  pointed (Binary64.divNearest value one) places keepPoint

/-- The leading `places + 1` digits of the double `m · 2 ^ e`, and the power of ten of the first. -/
def leading (m : Nat) (e : Int) (places : Nat) : Nat × Int :=
  if m = 0 then (0, 0)
  else
    let power := floorLog10 m e
    let (unit, value) := crossed 1 (power - places) m e
    let digits := Binary64.divNearest value unit
    if digits = Nat.pow 10 (places + 1) then (Nat.pow 10 places, power + 1) else (digits, power)

/-- A power of ten behind a mark, with at least two digits. -/
def powerText (power : Int) : List Char :=
  let digits := (toString power.natAbs).toList
  'e' :: (if power < 0 then '-' else '+') :: (if digits.length < 2 then '0' :: digits else digits)

/-- The double `m · 2 ^ e` with an exponent and a number of places. -/
def scientific (m : Nat) (e : Int) (places : Nat) (keepPoint : Bool) : List Char :=
  let (digits, power) := leading m e places
  pointed digits places keepPoint ++ powerText power

/-- A decimal without the zeros at the end of its places. -/
def withoutZeros (cs : List Char) : List Char :=
  if cs.contains '.' then
    (((cs.reverse.dropWhile (· = '0')).dropWhile (· = '.')).reverse)
  else cs

/-- The double `m · 2 ^ e` with a number of significant digits, positionally unless it is very large or
very small; a point and zeros at the end are kept only if that is asked for. -/
def significant (m : Nat) (e : Int) (count : Nat) (keepZeros : Bool) : List Char :=
  let count := max count 1
  let (digits, power) := leading m e (count - 1)
  let trim := fun cs => if keepZeros then cs else withoutZeros cs
  if -4 ≤ power && power < count then trim (fixed m e (count - 1 - power).toNat keepZeros)
  else trim (pointed digits (count - 1) keepZeros) ++ powerText power

end Decimal

end ReflectedSchema
