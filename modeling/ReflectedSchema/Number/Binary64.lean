/-!
# Double precision numbers

A double is a sign with `mantissa · 2 ^ exponent`, an infinity, or not a number.  Finite doubles are
kept in one canonical form: the exponent is at least `minExponent`, and the mantissa fills all of
its `precision` bits unless the exponent is `minExponent`.  All arithmetic is exact arithmetic of
natural numbers, so a double can be compared with an integer of any size without rounding.
-/

namespace ReflectedSchema

/-- A double precision number. -/
inductive Binary64 where
  | finite (negative : Bool) (mantissa : Nat) (exponent : Int)
  | infinite (negative : Bool)
  | nan
  deriving DecidableEq, Repr, Inhabited

namespace Binary64

/-- The number of bits of a mantissa. -/
def precision : Nat := 53

/-- The exponent of the smallest positive double. -/
def minExponent : Int := -1074

/-- The largest exponent. -/
def maxExponent : Int := 971

/-- The quotient rounded to the nearest natural number, a half to the even neighbour. -/
def divNearest (num den : Nat) : Nat :=
  let q := num / den
  let r := num % den
  if 2 * r < den then q
  else if den < 2 * r then q + 1
  else if q % 2 = 0 then q else q + 1

/-- The fraction `num / (den · 2 ^ e)` as numerator and denominator. -/
def scaleDown (num den : Nat) (e : Int) : Nat × Nat :=
  if 0 ≤ e then (num, den * Nat.pow 2 e.toNat) else (num * Nat.pow 2 (-e).toNat, den)

/-- The largest `e` with `2 ^ e ≤ num / den`, both positive. -/
def log2Ratio (num den : Nat) : Int :=
  let e : Int := (Nat.log2 num : Int) - Nat.log2 den
  let (n, d) := scaleDown num den e
  if n < d then e - 1 else e

/-- The double nearest to `± num / den`, a tie going to the even mantissa; too large a fraction
gives an infinity. -/
def ofRatio (negative : Bool) (num den : Nat) : Binary64 :=
  if num = 0 then .finite negative 0 minExponent
  else
    let e := max (log2Ratio num den - (precision - 1)) minExponent
    let (n, d) := scaleDown num den e
    let m := divNearest n d
    let (m, e) := if m = Nat.pow 2 precision then (Nat.pow 2 (precision - 1), e + 1) else (m, e)
    if maxExponent < e then .infinite negative else .finite negative m e

/-- The number of decimal digits of a natural number. -/
def digitCount (n : Nat) : Nat := (toString n).length

/-- The double nearest to `± digits · 10 ^ exponent`.  Exponents far outside the range are decided
without computing the power. -/
def ofDecimal (negative : Bool) (digits : Nat) (exponent : Int) : Binary64 :=
  if digits = 0 then .finite negative 0 minExponent
  else
    let magnitude := exponent + digitCount digits
    if 310 < magnitude then .infinite negative
    else if magnitude < -330 then .finite negative 0 minExponent
    else if 0 ≤ exponent then ofRatio negative (digits * Nat.pow 10 exponent.toNat) 1
    else ofRatio negative digits (Nat.pow 10 (-exponent).toNat)

/-- The double nearest to an integer, unless it is out of range. -/
def ofInt? (n : Int) : Option Binary64 :=
  match ofRatio (n < 0) n.natAbs 1 with
  | .finite s m e => some (.finite s m e)
  | _ => none

/-- The integer that a double is, if it is one. -/
def toInt? : Binary64 → Option Int
  | .finite s m e =>
    let signed (n : Nat) : Int := if s then -(n : Int) else n
    if 0 ≤ e then some (signed (m * Nat.pow 2 e.toNat))
    else if m % Nat.pow 2 (-e).toNat = 0 then some (signed (m / Nat.pow 2 (-e).toNat))
    else none
  | _ => none

/-- Whether a double is an integer. -/
def isIntegral (x : Binary64) : Bool := x.toInt?.isSome

/-- How a double compares with an integer; not a number compares with none. -/
def compareInt (x : Binary64) (n : Int) : Option Ordering :=
  match x with
  | .nan => none
  | .infinite s => some (if s then .lt else .gt)
  | .finite s m e =>
    let signed : Int := if s then -(m : Int) else m
    some (if 0 ≤ e then compare (signed * (Nat.pow 2 e.toNat : Nat)) n
      else compare signed (n * (Nat.pow 2 (-e).toNat : Nat)))

/-- The double `0.2`. -/
example : ofDecimal false 2 (-1) = .finite false 7205759403792794 (-55) := by decide +kernel

example : ofInt? 9007199254740993 = some (.finite false 4503599627370496 1) := by decide +kernel

example : (ofDecimal false 15 (-1)).isIntegral = false ∧ (ofDecimal true 30 (-1)).toInt? = some (-3) := by
  decide +kernel

end Binary64

end ReflectedSchema
