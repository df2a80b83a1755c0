/-!
# Doubles in decimal

A double is written with the fewest digits that read back as the same double, in
positional notation however large or small it is, and always with a point.

## The digits

A finite double other than zero is `m * 2 ^ q`.  The reals that read back as it
form an interval around it, half way to its two neighbours; the ends belong to it
when `m` is even.  The multiples of a power of ten form a grid.  The coarsest grid
with a point inside the interval gives the fewest digits.  On that grid only the
two neighbours of the value can be inside: the nearer one is taken, and of two that
are equally near the larger.

Everything is natural number arithmetic on the value scaled by a common
denominator, so nothing is rounded on the way.
-/

namespace Unnest.Decimal

/-- What a word of 64 bits stands for. -/
inductive Double where
  | nan
  | infinite (negative : Bool)
  /-- The value `mantissa * 2 ^ (exponent - 1075)`, up to its sign.  Under the least
  exponent, `1`, the mantissa may be small; under every other its 53rd bit is set. -/
  | finite (negative : Bool) (mantissa exponent : Nat)
  deriving DecidableEq, Repr

/-- Takes the sign, the eleven bits of the exponent and the 52 of the mantissa apart. -/
def Double.ofBits (bits : UInt64) : Double :=
  let n := bits.toNat
  let negative := decide (Nat.pow 2 63 ≤ n)
  let exponent := n / Nat.pow 2 52 % Nat.pow 2 11
  let fraction := n % Nat.pow 2 52
  if exponent = 2047 then
    if fraction = 0 then .infinite negative else .nan
  else if exponent = 0 then .finite negative fraction 1
  else .finite negative (fraction + Nat.pow 2 52) exponent

/-- A positive value on a grid, with everything over one denominator: the value is
`value / unit` steps of the grid, and its interval reaches `below / unit` steps
down and `above / unit` steps up. -/
structure OnGrid where
  value : Nat
  below : Nat
  above : Nat
  unit : Nat
  /-- Whether the ends belong to the interval. -/
  closed : Bool
  deriving DecidableEq, Repr

/-- The value `mantissa * 2 ^ (exponent - 1075)` on the grid of the multiples of
`10 ^ grid`.  The gap to the next smaller double is half as wide where the mantissa
is the least one of its exponent, unless the exponent is the least one too. -/
def OnGrid.ofFinite (mantissa exponent : Nat) (grid : Int) : OnGrid :=
  let up := Nat.pow 2 (exponent - 1077) * Nat.pow 10 (-grid).toNat
  { value := 4 * mantissa * up
    below := (if mantissa = Nat.pow 2 52 ∧ 1 < exponent then 1 else 2) * up
    above := 2 * up
    unit := Nat.pow 2 (1077 - exponent) * Nat.pow 10 grid.toNat
    closed := mantissa % 2 = 0 }

/-- Whether a distance stays inside a reach. -/
def OnGrid.within (g : OnGrid) (distance reach : Nat) : Bool :=
  distance < reach || g.closed && distance == reach

/-- The grid point that stands for the value, if one of its neighbours does. -/
def OnGrid.point? (g : OnGrid) : Option Nat :=
  let floor := g.value / g.unit
  let rest := g.value % g.unit
  let down := g.within rest g.below
  let up := g.within (g.unit - rest) g.above
  if down && up then some (if g.unit ≤ 2 * rest then floor + 1 else floor)
  else if down then some floor
  else if up then some (floor + 1)
  else none

/-- The first grid, from `10 ^ grid` on to finer ones, with a point for the value:
the point and the grid. -/
def shortestFrom (mantissa exponent : Nat) : Nat → Int → Nat × Int
  | 0, grid => (0, grid)
  | fuel + 1, grid =>
    match (OnGrid.ofFinite mantissa exponent grid).point? with
    | some digits => (digits, grid)
    | none => shortestFrom mantissa exponent fuel (grid - 1)

/-- The fewest digits of `mantissa * 2 ^ (exponent - 1075)` and the place of the
last of them.  No double is as large as `10 ^ 310`, and every double is a point of
the grid of `10 ^ -1074`, so the search ends in between. -/
def shortest (mantissa exponent : Nat) : Nat × Int := shortestFrom mantissa exponent 1385 310

/-- The number `digits * 10 ^ grid` written out, with at least one digit on each
side of the point. -/
def positional (digits : Nat) (grid : Int) : String :=
  if 0 ≤ grid then
    toString digits ++ String.ofList (List.replicate grid.toNat '0') ++ ".0"
  else
    let places := (-grid).toNat
    let text := (toString digits).toList.leftpad (places + 1) '0'
    String.ofList (text.take (text.length - places) ++ '.' :: text.drop (text.length - places))

/-- The sign of a negative number. -/
def sign (negative : Bool) : String := if negative then "-" else ""

/-- A double as object text shows it. -/
def render : Double → String
  | .nan => "NaN"
  | .infinite negative => sign negative ++ "inf"
  | .finite negative 0 _ => sign negative ++ "0.0"
  | .finite negative mantissa exponent =>
    let (digits, grid) := shortest mantissa exponent
    sign negative ++ positional digits grid

/-- The double with these bits as object text shows it. -/
def ofBits (bits : UInt64) : String := render (.ofBits bits)

end Unnest.Decimal
