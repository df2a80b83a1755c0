import Unnest.Host.Octets

/-!
# Numerals

The numbers that programs read from their arguments and print.  What a numeral is
differs from place to place: some take a sign, some a base by how they start, some a
unit at the end.  A reader of each kind either takes the whole text or nothing.
-/

namespace Unnest.Numeral

/-- The value of a digit, in bases up to 36. -/
def digit? (c : Char) : Option Nat :=
  if c.isDigit then some (c.toNat - '0'.toNat)
  else if c.isLower then some (c.toNat - 'a'.toNat + 10)
  else if c.isUpper then some (c.toNat - 'A'.toNat + 10)
  else none

/-- The value of a digit of a base. -/
def digitOf? (base : Nat) (c : Char) : Option Nat := (digit? c).filter (· < base)

/-- The number that digits write in a base; there has to be at least one. -/
def inBase? (base : Nat) (cs : List Char) : Option Nat :=
  if cs.isEmpty then none
  else cs.foldlM (fun n c => (digitOf? base c).map (base * n + ·)) 0

/-- The number that decimal digits write. -/
def decimal? (text : String) : Option Nat := inBase? 10 text.toList

/-- A whole number with a sign if it has one. -/
def integer? (text : String) : Option Int :=
  match text.toList with
  | '+' :: cs => (inBase? 10 cs).map Int.ofNat
  | '-' :: cs => (inBase? 10 cs).map fun n => -Int.ofNat n
  | cs => (inBase? 10 cs).map Int.ofNat

/-- A whole number with white space around it, if 64 bits hold it. -/
def spaced? (text : String) : Option Int :=
  let isSpace (c : Char) : Bool := Octets.isSpace c
  let cs := (text.toList.dropWhile isSpace).reverse.dropWhile isSpace
  (integer? (String.ofList cs.reverse)).filter fun n => decide (-Int.pow 2 63 ≤ n ∧ n < Int.pow 2 63)

/-- A number in the base that its start names: `0x` for sixteen and `0` for eight. -/
def constant? : List Char → Option Nat
  | '0' :: 'x' :: cs => inBase? 16 cs
  | '0' :: 'X' :: cs => inBase? 16 cs
  | '0' :: c :: cs => inBase? 8 (c :: cs)
  | cs => inBase? 10 cs

/-- A constant with a sign if it has one. -/
def signedConstant? (cs : List Char) : Option Int :=
  match cs with
  | '+' :: cs => (constant? cs).map Int.ofNat
  | '-' :: cs => (constant? cs).map fun n => -Int.ofNat n
  | cs => (constant? cs).map Int.ofNat

/-- The longest start of a text that digits of a base fill, as a number, and the rest. -/
def leading (base : Nat) (cs : List Char) : Nat × List Char :=
  let isDigit (c : Char) : Bool := (digitOf? base c).isSome
  ((inBase? base (cs.takeWhile isDigit)).getD 0, cs.dropWhile isDigit)

/-- The digits of a number in a base. -/
def digits (base n : Nat) : String := String.ofList (Nat.toDigits base n)

/-- The digits of a number in a base, above nine as capitals. -/
def capitalDigits (base n : Nat) : String := (digits base n).map Char.toUpper

/-- The powers of a thousand, or of 1024, by their letter. -/
def powers : List Char := ['K', 'M', 'G', 'T', 'P', 'E', 'Z', 'Y', 'R', 'Q']

/-- The factor that a unit of size stands for: `b` are blocks, a letter stands for a
power of 1024, also with `iB` behind it, and with `B` for a power of 1000. -/
def unit? (cs : List Char) : Option Nat :=
  let power (c : Char) : Option Nat :=
    (powers.findIdx? (· == if c = 'k' then 'K' else c)).map (· + 1)
  match cs with
  | [] => some 1
  | ['b'] => some 512
  | ['c'] => some 1
  | ['w'] => some 2
  | [c] => (power c).map (Nat.pow 1024)
  | [c, 'B'] => (power c).map (Nat.pow 1000)
  | [c, 'i', 'B'] => (power c).map (Nat.pow 1024)
  | _ => none

/-- A size: decimal digits with a unit if it has one. -/
def size? (text : String) : Option Nat :=
  let (n, rest) := leading 10 text.toList
  if rest.length < text.length then (unit? rest).map (n * ·)
  else (unit? rest).filter fun _ => !rest.isEmpty

/-- A number as 64 bits hold it, the first of them for the sign. -/
def wrap (n : Int) : Int := Int.bmod n (Nat.pow 2 64)

/-- The largest and the least number of 64 bits. -/
def largest : Int := Int.pow 2 63 - 1

/-- A number cut down to what 64 bits hold. -/
def clamp (n : Int) : Int := max (-Int.pow 2 63) (min largest n)

/-- A length of time in nanoseconds: a decimal fraction, and a unit unless it is
seconds. -/
def duration? (text : String) : Option Nat :=
  let cs := text.toList
  let (cs, scale) :=
    match cs.getLast? with
    | some 's' => (cs.dropLast, 1)
    | some 'm' => (cs.dropLast, 60)
    | some 'h' => (cs.dropLast, 3600)
    | some 'd' => (cs.dropLast, 86400)
    | _ => (cs, 1)
  let cs := match cs with
    | '+' :: cs => cs
    | cs => cs
  let whole := cs.takeWhile Char.isDigit
  let places := match cs.dropWhile Char.isDigit with
    | '.' :: places => some places
    | [] => some []
    | _ => none
  match places with
  | none => if cs.map Char.toLower ∈ ["inf".toList, "infinity".toList] then some (Nat.pow 10 30) else none
  | some places =>
    if places.all Char.isDigit && !(whole.isEmpty && places.isEmpty) then
      let fraction := (inBase? 10 ((places ++ List.replicate 9 '0').take 9)).getD 0
      some (((inBase? 10 whole).getD 0 * Nat.pow 10 9 + fraction) * scale)
    else none

end Unnest.Numeral
