import Unnest.Host.Numeral

/-!
# Reals in decimal places

Programs that print reals are told how many places to print.  A real is held here as an
exact fraction of natural numbers beside its sign; what a machine can hold of it is the
fraction rounded to a number of bits, and what is printed is the nearest number with
the places asked for, a tie going to the even digit.
-/

namespace Unnest.Host

/-- A real that a program works with. -/
inductive Real where
  | finite (isNegative : Bool) (upper lower : Nat)
  | infinite (isNegative : Bool)
  | nan
  deriving DecidableEq, Repr, Inhabited

namespace Real

/-- A fraction rounded to the nearest whole number, of two to the even one. -/
def nearest (upper lower : Nat) : Nat :=
  let floor := upper / lower
  let rest := 2 * (upper % lower)
  if lower < rest || (lower == rest && floor % 2 == 1) then floor + 1 else floor

/-- The power of two that the last of some bits stands for in a fraction. -/
def lastBit (bits : Nat) (upper lower : Nat) : Int :=
  let guess : Int := (Nat.log2 upper : Int) - Nat.log2 lower - bits
  -- the guess is the place or the one below it
  let isEnough (place : Int) : Bool :=
    decide (upper * Nat.pow 2 (-place).toNat < Nat.pow 2 bits * (lower * Nat.pow 2 place.toNat))
  if isEnough guess then guess else guess + 1

/-- A fraction rounded to what a number of bits holds, whose last one stands for no less
than a power of two. -/
def rounded (bits : Nat) (least : Int) (upper lower : Nat) : Nat × Nat :=
  if upper = 0 then (0, 1)
  else
    let place := max least (lastBit bits upper lower)
    let n := nearest (upper * Nat.pow 2 (-place).toNat) (lower * Nat.pow 2 place.toNat)
    (n * Nat.pow 2 place.toNat, Nat.pow 2 (-place).toNat)

/-- A real as 53 bits hold it. -/
def double : Real → Real
  | .finite isNegative upper lower =>
    let (upper, lower) := rounded 53 (-1074) upper lower
    if Nat.pow 2 1024 * lower ≤ upper then .infinite isNegative else .finite isNegative upper lower
  | r => r

/-- A real as 64 bits hold it. -/
def extended : Real → Real
  | .finite isNegative upper lower =>
    let (upper, lower) := rounded 64 (-16445) upper lower
    .finite isNegative upper lower
  | r => r

/-- The real at the start of a text and what follows it; `none` if there is none. -/
def read? (cs : List Char) : Option (Real × List Char) :=
  let cs := cs.dropWhile Octets.isSpace
  let (isNegative, cs) :=
    match cs with
    | '-' :: cs => (true, cs)
    | '+' :: cs => (false, cs)
    | cs => (false, cs)
  let word := (cs.takeWhile Char.isAlpha).map Char.toLower
  if word = "inf".toList || word = "infinity".toList then
    some (.infinite isNegative, cs.dropWhile Char.isAlpha)
  else if word = "nan".toList then some (.nan, cs.dropWhile Char.isAlpha)
  else
    let (base, power, mark, cs) :=
      match cs with
      | '0' :: x :: c :: rest =>
        if (x = 'x' || x = 'X') && ((Numeral.digitOf? 16 c).isSome) then (16, 2, 'p', c :: rest)
        else (10, 10, 'e', cs)
      | cs => (10, 10, 'e', cs)
    let isDigit (c : Char) : Bool := (Numeral.digitOf? base c).isSome
    let whole := cs.takeWhile isDigit
    let (places, rest) :=
      match cs.dropWhile isDigit with
      | '.' :: rest => (rest.takeWhile isDigit, rest.dropWhile isDigit)
      | rest => ([], rest)
    if whole.isEmpty && places.isEmpty then none
    else
      let upper := (Numeral.inBase? base (whole ++ places)).getD 0
      let lower := Nat.pow base places.length
      let exponent? : Option (Int × List Char) :=
        match rest with
        | c :: cs =>
          if c.toLower != mark then none
          else
            let (isDown, cs) :=
              match cs with
              | '-' :: cs => (true, cs)
              | '+' :: cs => (false, cs)
              | cs => (false, cs)
            let digits := cs.takeWhile Char.isDigit
            if digits.isEmpty then none
            else
              let n : Int := min 20000 ((Numeral.inBase? 10 digits).getD 0)
              some (if isDown then -n else n, cs.dropWhile Char.isDigit)
        | [] => none
      match exponent? with
      | some (e, rest) =>
        some (.finite isNegative (upper * Nat.pow power e.toNat) (lower * Nat.pow power (-e).toNat), rest)
      | none => some (.finite isNegative upper lower, rest)

/-- The real that a whole text is. -/
def ofText? (text : String) : Option Real :=
  (read? text.toList).bind fun (r, rest) => if rest.isEmpty then some r else none

/-! ## Printing -/

/-- How a number is printed. -/
structure Layout where
  width : Nat := 0
  precision? : Option Nat := none
  isLeft : Bool := false
  isZeroed : Bool := false
  /-- What stands in place of a minus before a number that is not negative. -/
  plus : String := ""
  isAlternate : Bool := false
  isCapital : Bool := false
  deriving Repr, Inhabited

/-- A body with a sign, as wide as it is asked for. -/
def Layout.fill (l : Layout) (sign body : String) (mayZero : Bool) : String :=
  let missing := l.width - (sign.length + body.length)
  if l.isLeft then sign ++ body ++ Octets.repeated missing ' '
  else if l.isZeroed && mayZero then sign ++ Octets.repeated missing '0' ++ body
  else Octets.repeated missing ' ' ++ sign ++ body

/-- Digits with a point before the last of them. -/
def pointed (places : Nat) (digits : String) (keepsPoint : Bool) : String :=
  let digits := Octets.padLeft '0' (places + 1) digits
  let whole := Octets.take (digits.length - places) digits
  if places = 0 then if keepsPoint then whole ++ "." else whole
  else whole ++ "." ++ Octets.drop (digits.length - places) digits

/-- A fraction with a number of decimal places. -/
def fixed (places : Nat) (upper lower : Nat) (keepsPoint : Bool) : String :=
  pointed places (toString (nearest (upper * Nat.pow 10 places) lower)) keepsPoint

/-- The power of ten of the first digit of a fraction other than zero. -/
def magnitude (upper lower : Nat) : Int :=
  let guess : Int := ((toString upper).length : Int) - (toString lower).length
  if upper * Nat.pow 10 (-guess).toNat < lower * Nat.pow 10 guess.toNat then guess - 1 else guess

/-- The digits of a fraction, of which there are one more than places, and the power of
ten of the first. -/
def significant (places : Nat) (upper lower : Nat) : Nat × Int :=
  if upper = 0 then (0, 0)
  else
    let m := magnitude upper lower
    let shift : Int := (places : Int) - m
    let n := nearest (upper * Nat.pow 10 shift.toNat) (lower * Nat.pow 10 (-shift).toNat)
    if n = Nat.pow 10 (places + 1) then (n / 10, m + 1) else (n, m)

/-- A power of ten in a text. -/
def exponentText (e : Int) (isCapital : Bool) : String :=
  (if isCapital then "E" else "e") ++ (if e < 0 then "-" else "+") ++
    Octets.padLeft '0' 2 (toString e.natAbs)

/-- A fraction with a digit before the point and a power of ten. -/
def scientific (places : Nat) (upper lower : Nat) (keepsPoint isCapital : Bool) : String :=
  let (n, e) := significant places upper lower
  pointed places (toString n) keepsPoint ++ exponentText e isCapital

/-- A text without the noughts at the end of its places. -/
def trimmed (text : String) : String :=
  if Octets.has text '.' then
    match text.toList.reverse.dropWhile (· == '0') with
    | '.' :: cs => String.ofList cs.reverse
    | cs => String.ofList cs.reverse
  else text

/-- A fraction with a number of digits, as short as it gets. -/
def general (digits : Nat) (upper lower : Nat) (keepsAll isCapital : Bool) : String :=
  let digits := max 1 digits
  let (n, e) := significant (digits - 1) upper lower
  let trim (text : String) : String := if keepsAll then text else trimmed text
  if e < -4 || (digits : Int) ≤ e then
    trim (pointed (digits - 1) (toString n) keepsAll) ++ exponentText e isCapital
  else trim (fixed ((digits : Int) - 1 - e).toNat upper lower keepsAll)

/-- The ways in which a real can be printed. -/
inductive Style where
  | fixed
  | scientific
  | general
  deriving DecidableEq, Repr

/-- A real in a style. -/
def render (l : Layout) (style : Style) (r : Real) : String :=
  let sign (isNegative : Bool) : String := if isNegative then "-" else l.plus
  let capital (text : String) : String := if l.isCapital then text.map Char.toUpper else text
  match r with
  | .nan => l.fill l.plus (capital "nan") false
  | .infinite isNegative => l.fill (sign isNegative) (capital "inf") false
  | .finite isNegative upper lower =>
    let places := l.precision?.getD 6
    let body :=
      match style with
      | .fixed => Real.fixed places upper lower l.isAlternate
      | .scientific => Real.scientific places upper lower l.isAlternate l.isCapital
      | .general => Real.general places upper lower l.isAlternate l.isCapital
    l.fill (sign isNegative) body true

/-- A whole number in a base.  A precision is the least number of digits. -/
def renderDigits (l : Layout) (sign mark digits : String) : String :=
  match l.precision? with
  | none => l.fill (sign ++ mark) digits true
  | some places =>
    let digits := if places = 0 && digits = "0" then "" else Octets.padLeft '0' places digits
    l.fill (sign ++ mark) digits false

end Real

end Unnest.Host
