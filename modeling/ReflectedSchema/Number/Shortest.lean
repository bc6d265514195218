import ReflectedSchema.Number.Binary64

/-!
# The shortest decimal of a double

`shortest` finds the decimal with the fewest digits that rounds back to a double, and of those the
nearest one.  A double `m · 2 ^ q` is read from every decimal between the midpoints to its
neighbours, the midpoints included when `m` is even.  The search goes through decimal grids of one
to seventeen digits and tests the two grid points around the double, in exact arithmetic on units of
`2 ^ (q - 2)`.

`Binary64.text` lays the digits out: positionally while the decimal exponent is at least `-4` and
below `16`, with at least one digit after the point, and with an exponent of at least two digits
otherwise.
-/

namespace ReflectedSchema

/-- A positive decimal `digits · 10 ^ exponent`. -/
structure Decimal where
  digits : Nat
  exponent : Int
  deriving DecidableEq, Repr

namespace Decimal

/-- The value of `k · 10 ^ e` against `n · 2 ^ b`, cleared of denominators. -/
def crossed (k : Nat) (e : Int) (n : Nat) (b : Int) : Nat × Nat :=
  (k * Nat.pow 10 e.toNat * Nat.pow 2 (-b).toNat, n * Nat.pow 2 b.toNat * Nat.pow 10 (-e).toNat)

/-- The decimals that round to `m · 2 ^ q`: those from `low` to `high` units of `2 ^ (q - 2)`. -/
structure Interval where
  low : Nat
  high : Nat
  closed : Bool
  unit : Int

/-- The rounding interval of the double `m · 2 ^ q`. -/
def Interval.of (m : Nat) (q : Int) : Interval where
  low :=
    if m = Nat.pow 2 (Binary64.precision - 1) ∧ Binary64.minExponent < q then 4 * m - 1 else 4 * m - 2
  high := 4 * m + 2
  closed := m % 2 = 0
  unit := q - 2

/-- Whether `k · 10 ^ e` lies in the interval. -/
def Interval.contains (i : Interval) (k : Nat) (e : Int) : Bool :=
  let (a, l) := crossed k e i.low i.unit
  let (b, h) := crossed k e i.high i.unit
  if i.closed then l ≤ a && b ≤ h else l < a && b < h

/-- The largest `e` with `10 ^ e ≤ n · 2 ^ b`, for positive `n`. -/
def floorLog10 (n : Nat) (b : Int) : Int :=
  let e := ((Nat.log2 n + b) * 30103) / 100000
  let reaches (e : Int) : Bool := let (a, v) := crossed 1 e n b; a ≤ v
  if reaches (e + 1) then e + 1 else if reaches e then e else e - 1

/-- The best grid point of `10 ^ e` in the interval of `m · 2 ^ q`, if there is one: the nearer of
the two neighbours, and the even one of two that are equally near. -/
def onGrid (m : Nat) (q : Int) (e : Int) : Option Nat :=
  let i := Interval.of m q
  let (one, v) := crossed 1 e (4 * m) i.unit
  let below := v / one
  let above := below + 1
  let rest := v - below * one
  match i.contains below e, i.contains above e with
  | true, false => some below
  | false, true => some above
  | false, false => none
  | true, true =>
    if 2 * rest < one then some below
    else if one < 2 * rest then some above
    else some (if below % 2 = 0 then below else above)

/-- Search the grids with `count - left` digits and more. -/
def search (m : Nat) (q : Int) (lead : Int) : (left : Nat) → Decimal
  | 0 => ⟨4 * m, q⟩
  | left + 1 =>
    let e := lead - (16 - left : Int)
    match onGrid m q e with
    | some k => ⟨k, e⟩
    | none => search m q lead left

/-- The shortest decimal that rounds to the double `m · 2 ^ q`, for positive `m`. -/
def shortest (m : Nat) (q : Int) : Decimal :=
  search m q (floorLog10 (4 * m) (q - 2)) 17

/-- The digits without the zeros at the end, and how many zeros there were. -/
def dropZeros (digits : List Char) : List Char × Nat :=
  let kept := (digits.reverse.dropWhile (· = '0')).reverse
  (kept, digits.length - kept.length)

/-- Lay out a positive decimal. -/
def layout (d : Decimal) : List Char :=
  let written := (toString d.digits).toList
  let (digits, zeros) := dropZeros written
  let point : Int := d.exponent + zeros + digits.length
  if -4 < point ∧ point ≤ 16 then
    if point ≤ 0 then '0' :: '.' :: List.replicate (-point).toNat '0' ++ digits
    else if digits.length ≤ point.toNat then
      digits ++ List.replicate (point.toNat - digits.length) '0' ++ ['.', '0']
    else digits.take point.toNat ++ '.' :: digits.drop point.toNat
  else
    let e := point - 1
    let number := (toString e.natAbs).toList
    let exponent := (if e < 0 then '-' else '+') :: (if number.length < 2 then '0' :: number else number)
    match digits with
    | [d] => d :: 'e' :: exponent
    | d :: more => d :: '.' :: more ++ 'e' :: exponent
    | [] => 'e' :: exponent

end Decimal

/-- The text of a double, with the given words for the infinities and for not a number. -/
def Binary64.textWith (infinity notANumber : String) : Binary64 → String
  | .finite s m e =>
    let sign := if s then "-" else ""
    if m = 0 then sign ++ "0.0" else sign ++ String.ofList (Decimal.shortest m e).layout
  | .infinite s => (if s then "-" else "") ++ infinity
  | .nan => notANumber

/-- The text of a double in a message. -/
def Binary64.text : Binary64 → String :=
  Binary64.textWith "inf" "nan"

end ReflectedSchema
